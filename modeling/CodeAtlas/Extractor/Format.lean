import CodeAtlas.Number.Digits
import CodeAtlas.Text.Utf8
/-!
# Formatted words

How words are printed: on one line, with escapes replaced, or by a format whose directives say where each word goes and how it is shown.
-/

namespace CodeAtlas

namespace Format

/-- The character that a backslash and a letter stand for. -/
def escaped? : Char → Option UInt8
  | 'a' => some 7
  | 'b' => some 8
  | 'f' => some 12
  | 'n' => some 10
  | 'r' => some 13
  | 't' => some 9
  | 'v' => some 11
  | '\\' => some 92
  | _ => none

/-- Whether a character is an octal digit. -/
def isOctal (c : Char) : Bool := '0' ≤ c && c ≤ '7'

/-- The value of octal digits, as a byte. -/
def octalValue (cs : List Char) : UInt8 := (cs.foldl (fun n c => 8 * n + (c.toNat - '0'.toNat)) 0).toUInt8

/-- The bytes of a character. -/
def bytesOf (c : Char) : List UInt8 := Text.encode (String.ofList [c])

/-- Replaces escapes. With `zeroFirst` an octal escape may start with one more zero, and a `c` ends the text; the second result tells whether it did. `fuel` bounds the
characters. -/
def unescape (zeroFirst : Bool) : Nat → List Char → List UInt8 × Bool
  | 0, _ => ([], false)
  | _, [] => ([], false)
  | fuel + 1, '\\' :: c :: rest =>
    let continued (bytes : List UInt8) (rest : List Char) : List UInt8 × Bool :=
      let (more, stopped) := unescape zeroFirst fuel rest
      (bytes ++ more, stopped)
    if zeroFirst && c = 'c' then ([], true)
    else if isOctal c then
      let digits := if zeroFirst && c = '0' then (rest.take 3).takeWhile isOctal else c :: (rest.take 2).takeWhile isOctal
      continued [octalValue digits] ((c :: rest).drop (digits.length + if zeroFirst && c = '0' then 1 else 0))
    else
      match escaped? c with
      | some b => continued [b] rest
      | none => continued [92] (c :: rest)
  | fuel + 1, c :: rest =>
    let (more, stopped) := unescape zeroFirst fuel rest
    (bytesOf c ++ more, stopped)

/-- A text with its escapes replaced. -/
def unescaped (zeroFirst : Bool) (cs : List Char) : List UInt8 × Bool := unescape zeroFirst (cs.length + 1) cs

/-- Words on one line. The line is ended and escapes are replaced as asked for. -/
def line (ended replaced : Bool) (words : List String) : List UInt8 :=
  let text := " ".intercalate words
  let (bytes, stopped) := if replaced then unescaped true text.toList else (Text.encode text, false)
  if stopped || !ended then bytes else bytes ++ [10]

/-- Words on one line with escapes replaced; a first word can ask that the line be not ended. -/
def escapedLine : List String → List UInt8
  | "-n" :: words => line false true words
  | words => line true true words

/-- Whether a word is nothing but options of a line printer. -/
def isLineOption (word : String) : Bool :=
  match word.toList with
  | '-' :: letters => !letters.isEmpty && letters.all fun c => c = 'n' || c = 'e' || c = 'E'
  | _ => false

/-- Words on one line as the options before them ask. -/
def plainLine (args : List String) : List UInt8 :=
  let letters := (args.takeWhile isLineOption).flatMap fun word => word.toList.drop 1
  line (!letters.contains 'n') ((letters.filter (· ≠ 'n')).getLast? = some 'e') (args.dropWhile isLineOption)

/-- A place in a format where an argument goes: its flags, its width, the most characters of a word, and its kind. -/
structure Directive where
  left : Bool
  zeros : Bool
  width : Nat
  places : Option Nat
  kind : Char

namespace Directive

/-- The directive after a percent sign, and what follows. -/
def read? (cs : List Char) : Option (Directive × List Char) :=
  let flags := cs.takeWhile fun c => c = '-' || c = '0' || c = '+' || c = ' ' || c = '#'
  let rest := cs.drop flags.length
  let width := rest.takeWhile Char.isDigit
  let rest := rest.drop width.length
  let (places, rest) := match rest with
    | '.' :: more => (some (Number.digitsValue (more.takeWhile Char.isDigit)), more.dropWhile Char.isDigit)
    | _ => (none, rest)
  match rest with
  | [] => none
  | kind :: rest =>
    some ({ left := flags.contains '-', zeros := flags.contains '0', width := Number.digitsValue width, places := places,
            kind := kind }, rest)

/-- Fills up to a width. -/
def pad (d : Directive) (numeric : Bool) (bytes : List UInt8) : List UInt8 :=
  let missing := d.width - bytes.length
  if d.left then bytes ++ List.replicate missing 32
  else List.replicate missing (if d.zeros && numeric then 48 else 32) ++ bytes

/-- A number in digits of a base. -/
def digits (base : Nat) (capital : Bool) (n : Int) : List UInt8 :=
  let text := String.ofList (Nat.toDigits base n.natAbs)
  Text.encode ((if n < 0 then "-" else "") ++ if capital then text.toUpper else text)

/-- Whether the argument of a directive is a number. -/
def isNumeric (d : Directive) : Bool := ['d', 'i', 'u', 'o', 'x', 'X'].contains d.kind

/-- An argument as the directive shows it; `none` if there is no such directive. -/
def show? (d : Directive) (arg : String) : Option (List UInt8) :=
  let number : Int := (Number.int64? arg.toList).getD 0
  match d.kind with
  | 's' => some (d.pad false ((d.places.map fun n => (Text.encode arg).take n).getD (Text.encode arg)))
  | 'b' => some (d.pad false (unescaped true arg.toList).1)
  | 'c' => some (d.pad false [(Text.encode arg).headD 0])
  | 'd' => some (d.pad true (digits 10 false number))
  | 'i' => some (d.pad true (digits 10 false number))
  | 'u' => some (d.pad true (digits 10 false number))
  | 'o' => some (d.pad true (digits 8 false number))
  | 'x' => some (d.pad true (digits 16 false number))
  | 'X' => some (d.pad true (digits 16 true number))
  | _ => none

end Directive

/-- What is wrong with a format or with an argument. -/
inductive Fault where
  | badDirective (text : String)
  | badNumber (text : String)
deriving Repr, DecidableEq, Inhabited

/-- A format filled in, the arguments that are left, and the last thing that was wrong. -/
structure Filled where
  bytes : List UInt8 := []
  left : List String
  fault : Option Fault := none

/-- Puts bytes before. -/
def Filled.after (f : Filled) (bytes : List UInt8) : Filled := { f with bytes := bytes ++ f.bytes }

/-- A format filled in with arguments. `fuel` bounds the characters. -/
def fill : Nat → List Char → List String → Filled
  | 0, _, args => { left := args }
  | _, [], args => { left := args }
  | fuel + 1, '%' :: '%' :: rest, args => (fill fuel rest args).after [37]
  | fuel + 1, '%' :: rest, args =>
    let stopped (taken : List Char) : Filled :=
      { left := [], fault := some (.badDirective (String.ofList ('%' :: taken))) }
    match Directive.read? rest with
    | none => stopped rest
    | some (d, after) =>
      match d.show? (args.headD "") with
      | none => stopped (rest.take (rest.length - after.length))
      | some shown =>
        let filled := (fill fuel after (args.drop 1)).after shown
        let isBad := d.isNumeric && (args.headD "").length ≠ 0 && (Number.int64? (args.headD "").toList).isNone
        if isBad then { filled with fault := filled.fault <|> some (.badNumber (args.headD "")) } else filled
  | fuel + 1, '\\' :: c :: rest, args =>
    let digits := ((c :: rest).take 3).takeWhile isOctal
    let (bytes, rest) :=
      if !digits.isEmpty then ([octalValue digits], (c :: rest).drop digits.length)
      else
        match escaped? c with
        | some b => ([b], rest)
        | none => ([92], c :: rest)
    (fill fuel rest args).after bytes
  | fuel + 1, c :: rest, args => (fill fuel rest args).after (bytesOf c)

/-- A format filled in as often as there are arguments for it, at most `rounds` times. -/
def fillAll (format : List Char) : Nat → List String → Filled
  | 0, args => { left := args }
  | rounds + 1, args =>
    let filled := fill (format.length + 1) format args
    if filled.left.isEmpty || filled.left.length = args.length then filled
    else
      let more := fillAll format rounds filled.left
      { more.after filled.bytes with fault := filled.fault <|> more.fault }

/-- Words by a format, and what was wrong. -/
def formatted (format : String) (args : List String) : List UInt8 × Option Fault :=
  let filled := fillAll format.toList (args.length + 1) args
  (filled.bytes, filled.fault)

end Format

end CodeAtlas
