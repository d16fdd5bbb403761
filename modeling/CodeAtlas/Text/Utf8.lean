/-!
# UTF-8

Texts as bytes and back. Reading never fails: where the bytes are no well-formed text, every longest piece that could have been the
beginning of a character becomes one replacement character.
-/

namespace CodeAtlas.Text

/-- The character that stands for bytes that are no text. -/
def replacement : Char := Char.ofNat 0xFFFD

namespace Utf8

/-- Bytes that continue a character. -/
def isContinuation (b : UInt8) : Bool := 0x80 ≤ b && b ≤ 0xBF

/-- The low six bits of a continuing byte. -/
def low (b : UInt8) : Nat := b.toNat % 64

/-- The bytes that may come second after a first byte, and how many continuing bytes a character has. -/
structure Lead where
  /-- The bits of the first byte. -/
  bits : Nat
  /-- Least second byte. -/
  least : UInt8
  /-- Greatest second byte. -/
  greatest : UInt8
  /-- How many bytes follow the second. -/
  further : Nat

/-- What may follow a first byte of a character of several bytes. -/
def lead? (b : UInt8) : Option Lead :=
  if 0xC2 ≤ b && b ≤ 0xDF then some ⟨b.toNat - 0xC0, 0x80, 0xBF, 0⟩
  else if b == 0xE0 then some ⟨0, 0xA0, 0xBF, 1⟩
  else if b == 0xED then some ⟨13, 0x80, 0x9F, 1⟩
  else if 0xE1 ≤ b && b ≤ 0xEF then some ⟨b.toNat - 0xE0, 0x80, 0xBF, 1⟩
  else if b == 0xF0 then some ⟨0, 0x90, 0xBF, 2⟩
  else if 0xF1 ≤ b && b ≤ 0xF3 then some ⟨b.toNat - 0xF0, 0x80, 0xBF, 2⟩
  else if b == 0xF4 then some ⟨4, 0x80, 0x8F, 2⟩
  else none

/-- The state between two bytes: the bits of the character begun and how many bytes it still needs, or none. The second
byte is bounded more narrowly than the rest. -/
structure Pending where
  bits : Nat
  least : UInt8
  greatest : UInt8
  needed : Nat

/-- Reads a byte where a character may begin. -/
def start (b : UInt8) : List Char × Option Pending :=
  if b < 0x80 then ([Char.ofNat b.toNat], none)
  else
    match lead? b with
    | some l => ([], some ⟨l.bits, l.least, l.greatest, l.further + 1⟩)
    | none => ([replacement], none)

/-- Reads bytes from a given state on. -/
def decodeFrom : Option Pending → List UInt8 → List Char
  | none, [] => []
  | some _, [] => [replacement]
  | none, b :: bs =>
    let (out, next) := start b
    out ++ decodeFrom next bs
  | some p, b :: bs =>
    if p.least ≤ b && b ≤ p.greatest then
      let bits := p.bits * 64 + low b
      if p.needed ≤ 1 then Char.ofNat bits :: decodeFrom none bs
      else decodeFrom (some ⟨bits, 0x80, 0xBF, p.needed - 1⟩) bs
    else
      let (out, next) := start b
      replacement :: out ++ decodeFrom next bs

end Utf8

/-- The text of bytes. -/
def decode (bytes : List UInt8) : String := String.ofList (Utf8.decodeFrom none bytes)

/-- The bytes of a text. -/
def encode (s : String) : List UInt8 := s.toUTF8.toList

/-- The text of bytes that are well formed throughout. -/
def decodeExact? (bytes : List UInt8) : Option String :=
  let text := decode bytes
  if encode text = bytes then some text else none

/-- The lines of bytes, each with the line feed that ends it. -/
def byteLines : List UInt8 → List (List UInt8)
  | [] => []
  | b :: bs =>
    if b = 0x0A then [b] :: byteLines bs
    else
      match byteLines bs with
      | [] => [[b]]
      | line :: rest => (b :: line) :: rest

/-- The text of bytes up to the first line that is not well formed. -/
def decodeLines (bytes : List UInt8) : String :=
  String.join ((((byteLines bytes).map decodeExact?).takeWhile Option.isSome).filterMap id)

end CodeAtlas.Text
