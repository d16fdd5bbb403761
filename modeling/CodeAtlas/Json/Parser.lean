import CodeAtlas.Json.Numeral
import CodeAtlas.Text.Utf8
/-!
# Reading JSON text

`Json.parse?` accepts one value and nothing after it but blanks. Nesting is bounded by `depthLimit`. A reader says what it wants of the value
(`Json.Wanted`); what it does not want is checked for its form and passed over, however deep it is and whatever its numbers and strings
stand for.

Text is read byte by byte. All that is syntax is ASCII, so a byte is held as the character of its number, and only the bytes of a
string that is wanted must be text.
-/

namespace CodeAtlas.Json

/-- How many brackets may be open at once. -/
def depthLimit : Nat := 127

/-- Blanks between tokens. -/
def isGap (c : Char) : Bool := c == ' ' || c == '\n' || c == '\t' || c == '\r'

/-- Drops blanks between tokens. -/
def skip (cs : List Char) : List Char := cs.dropWhile isGap

/-- The value of a hexadecimal digit. -/
def hexDigit? (c : Char) : Option Nat :=
  if c.isDigit then some (c.toNat - '0'.toNat)
  else if 'a' ≤ c ∧ c ≤ 'f' then some (c.toNat - 'a'.toNat + 10)
  else if 'A' ≤ c ∧ c ≤ 'F' then some (c.toNat - 'A'.toNat + 10)
  else none

/-- Four hexadecimal digits. -/
def hex4? (a b c d : Char) : Option Nat := do
  return (((← hexDigit? a) * 16 + (← hexDigit? b)) * 16 + (← hexDigit? c)) * 16 + (← hexDigit? d)

/-- The character a one-letter escape stands for. -/
def escaped? (c : Char) : Option Char :=
  match c with
  | '"' => some '"'
  | '\\' => some '\\'
  | '/' => some '/'
  | 'b' => some (Char.ofNat 8)
  | 'f' => some (Char.ofNat 12)
  | 'n' => some '\n'
  | 'r' => some '\r'
  | 't' => some '\t'
  | _ => none

/-- A byte as the character of its number. -/
def ofByte (b : UInt8) : Char := Char.ofNat b.toNat

/-- A character that stands for a byte as that byte. -/
def toByte (c : Char) : UInt8 := c.toNat.toUInt8

/-- The bytes of a character, each as a character. -/
def bytesOf (c : Char) : List Char := (Text.encode (String.ofList [c])).map ofByte

/-- The rest of a string after its opening quote, and what follows its closing quote; what has been read is given the last first. Code points above
`FFFF` are written as two escapes that belong together; one of a pair alone is refused. -/
def stringRest : List Char → List Char → Option (String × List Char)
  | _, [] => none
  | done, '"' :: rest => (Text.decodeExact? (done.reverse.map toByte)).map fun text => (text, rest)
  | done, '\\' :: 'u' :: a :: b :: c :: d :: rest =>
    match hex4? a b c d with
    | none => none
    | some unit =>
      if 0xDC00 ≤ unit ∧ unit ≤ 0xDFFF then none
      else if 0xD800 ≤ unit ∧ unit ≤ 0xDBFF then
        match rest with
        | '\\' :: 'u' :: e :: f :: g :: h :: more =>
          match hex4? e f g h with
          | none => none
          | some low =>
            if 0xDC00 ≤ low ∧ low ≤ 0xDFFF then
              let point := Char.ofNat (0x10000 + (unit - 0xD800) * 0x400 + (low - 0xDC00))
              stringRest ((bytesOf point).reverse ++ done) more
            else none
        | _ => none
      else stringRest ((bytesOf (Char.ofNat unit)).reverse ++ done) rest
  | done, '\\' :: c :: rest =>
    match escaped? c with
    | none => none
    | some e => stringRest (e :: done) rest
  | done, c :: rest => if c.toNat < 32 then none else stringRest (c :: done) rest

/-- What follows a string that is passed over. Any four digits make an escape. -/
def skipString? : List Char → Option (List Char)
  | [] => none
  | '"' :: rest => some rest
  | '\\' :: 'u' :: a :: b :: c :: d :: rest => if (hex4? a b c d).isSome then skipString? rest else none
  | '\\' :: c :: rest => if (escaped? c).isSome then skipString? rest else none
  | c :: rest => if c.toNat < 32 then none else skipString? rest

/-- What follows a value without inner values that is passed over. -/
def skipScalar? : List Char → Option (List Char)
  | 'n' :: 'u' :: 'l' :: 'l' :: rest => some rest
  | 't' :: 'r' :: 'u' :: 'e' :: rest => some rest
  | 'f' :: 'a' :: 'l' :: 's' :: 'e' :: rest => some rest
  | '"' :: rest => skipString? rest
  | cs => (Numeral.read? cs).map (·.2)

/-- What is expected next while a value is passed over. -/
inductive Expected where
  | value
  | name
  /-- A comma or a closing bracket. -/
  | next

/-- What follows a value that is passed over, inside of open brackets: those of records are `true`. `fuel` bounds the tokens. -/
def skipFrom? : Nat → Expected → List Bool → List Char → Option (List Char)
  | 0, _, _, _ => none
  | fuel + 1, .value, inside, cs =>
    match skip cs with
    | '[' :: rest =>
      match skip rest with
      | ']' :: rest => skipFrom? fuel .next inside rest
      | rest => skipFrom? fuel .value (false :: inside) rest
    | '\x7b' :: rest =>
      match skip rest with
      | '\x7d' :: rest => skipFrom? fuel .next inside rest
      | rest => skipFrom? fuel .name (true :: inside) rest
    | rest =>
      match skipScalar? rest with
      | none => none
      | some rest => skipFrom? fuel .next inside rest
  | fuel + 1, .name, inside, cs =>
    match skip cs with
    | '"' :: rest =>
      match skipString? rest with
      | none => none
      | some rest =>
        match skip rest with
        | ':' :: rest => skipFrom? fuel .value inside rest
        | _ => none
    | _ => none
  | _ + 1, .next, [], cs => some cs
  | fuel + 1, .next, record :: outer, cs =>
    match skip cs with
    | ',' :: rest => skipFrom? fuel (if record then .name else .value) (record :: outer) rest
    | ']' :: rest => if record then none else skipFrom? fuel .next outer rest
    | '\x7d' :: rest => if record then skipFrom? fuel .next outer rest else none
    | _ => none

/-- What a reader wants of a value. -/
inductive Wanted where
  | everything
  | nothing
  /-- Fields by any of their names; a list gives them in order. -/
  | fields (known : List (List String × Wanted))
  /-- The same of each item of a list. -/
  | items (each : Wanted)
deriving Inhabited

namespace Wanted

/-- What is wanted of a field. -/
def field (name : String) : Wanted → Wanted
  | .fields known => ((known.find? fun (names, _) => names.contains name).map (·.2)).getD .nothing
  | _ => .everything

/-- What is wanted of the first item of a list, and of the items after it. -/
def next : Wanted → Wanted × Wanted
  | .items each => (each, .items each)
  | .fields ((_, wanted) :: known) => (wanted, .fields known)
  | _ => (.everything, .everything)

end Wanted

mutual

/-- The value at the start of a text. `fuel` bounds the calls, `depth` the brackets still allowed. What is not wanted counts as `null`. -/
def value? : Nat → Nat → Wanted → List Char → Option (Json × List Char)
  | 0, _, _, _ => none
  | fuel + 1, _, .nothing, cs => (skipFrom? (fuel + 1) .value [] cs).map fun rest => (.null, rest)
  | fuel + 1, depth, wanted, cs =>
    match skip cs with
    | 'n' :: 'u' :: 'l' :: 'l' :: rest => some (.null, rest)
    | 't' :: 'r' :: 'u' :: 'e' :: rest => some (.bool true, rest)
    | 'f' :: 'a' :: 'l' :: 's' :: 'e' :: rest => some (.bool false, rest)
    | '"' :: rest => (stringRest [] rest).map fun (s, rest) => (.str s, rest)
    | '[' :: rest =>
      match depth with
      | 0 => none
      | depth + 1 =>
        match skip rest with
        | ']' :: rest => some (.arr [], rest)
        | _ => (items? fuel depth wanted rest).map fun (items, rest) => (.arr items, rest)
    | '\x7b' :: rest =>
      match depth with
      | 0 => none
      | depth + 1 =>
        match skip rest with
        | '\x7d' :: rest => some (.obj [], rest)
        | _ => (fields? fuel depth wanted rest).map fun (fields, rest) => (.obj fields, rest)
    | rest =>
      match Numeral.read? rest with
      | none => none
      | some (numeral, rest) => numeral.value?.map fun value => (value, rest)

/-- The items of an array up to its closing bracket. -/
def items? : Nat → Nat → Wanted → List Char → Option (List Json × List Char)
  | 0, _, _, _ => none
  | fuel + 1, depth, wanted, cs =>
    match value? fuel depth wanted.next.1 cs with
    | none => none
    | some (item, rest) =>
      match skip rest with
      | ']' :: rest => some ([item], rest)
      | ',' :: rest => (items? fuel depth wanted.next.2 rest).map fun (items, rest) => (item :: items, rest)
      | _ => none

/-- The fields of a record up to its closing bracket. -/
def fields? : Nat → Nat → Wanted → List Char → Option (List (String × Json) × List Char)
  | 0, _, _, _ => none
  | fuel + 1, depth, wanted, cs =>
    match skip cs with
    | '"' :: rest =>
      match stringRest [] rest with
      | none => none
      | some (name, rest) =>
        match skip rest with
        | ':' :: rest =>
          match value? fuel depth (wanted.field name) rest with
          | none => none
          | some (value, rest) =>
            match skip rest with
            | '\x7d' :: rest => some ([(name, value)], rest)
            | ',' :: rest =>
              (fields? fuel depth wanted rest).map fun (fields, rest) => ((name, value) :: fields, rest)
            | _ => none
        | _ => none
    | _ => none

end

/-- Reads one value and nothing after it. Every call reads a character or opens a value that does, so twice
the length of the text bounds the calls. -/
def parseBytes? (wanted : Wanted) (bytes : List UInt8) : Option Json :=
  let cs := bytes.map ofByte
  match value? (2 * cs.length + 2) depthLimit wanted cs with
  | some (value, rest) => if (skip rest).isEmpty then some value else none
  | none => none

/-- The value that a text stands for. -/
def parse? (text : String) : Option Json := parseBytes? .everything (Text.encode text)

end CodeAtlas.Json
