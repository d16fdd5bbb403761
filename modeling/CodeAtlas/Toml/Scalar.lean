import CodeAtlas.Json.Parser
import CodeAtlas.Number.Digits
import CodeAtlas.Text.Basic
import CodeAtlas.Toml.Basic
/-!
# Strings, numbers and dates in TOML

Strings stand in double quotes, with escapes, or in single quotes, without; with three quotes on each side they may run over several
lines. Digits may be grouped by underscores. Each reader gives what it read and the rest of the text.
-/

namespace CodeAtlas.Toml

/-- Blanks inside a line. -/
def isBlank (c : Char) : Bool := c = ' ' || c = '\t'

/-- Characters that may stand in a line as they are. -/
def isPrintable (c : Char) : Bool := c = '\t' || (0x20 ≤ c.toNat && c.toNat ≠ 0x7F)

/-- The character that an escape of one letter stands for. -/
def escaped? : Char → Option Char
  | 'b' => some (Char.ofNat 8)
  | 't' => some '\t'
  | 'n' => some '\n'
  | 'f' => some (Char.ofNat 12)
  | 'r' => some '\r'
  | '"' => some '"'
  | '\\' => some '\\'
  | _ => none

/-- The value of hexadecimal digits. -/
def hexValue? : Nat → List Char → Option Nat
  | n, [] => some n
  | n, c :: cs => (Json.hexDigit? c).bind fun d => hexValue? (16 * n + d) cs

/-- The character with a code point, if there is one. -/
def charAt? (digits : List Char) : Option Char :=
  (hexValue? 0 digits).bind fun n => if n.isValidChar then some (Char.ofNat n) else none

/-- Puts a character before what was read. -/
def consChar (c : Char) (read : Option (List Char × List Char)) : Option (List Char × List Char) :=
  read.map fun (text, rest) => (c :: text, rest)

/-- A string after its opening double quote. -/
def basicRest : List Char → Option (List Char × List Char)
  | [] => none
  | '"' :: rest => some ([], rest)
  | '\\' :: 'u' :: a :: b :: c :: d :: rest => (charAt? [a, b, c, d]).bind fun x => consChar x (basicRest rest)
  | '\\' :: 'U' :: a :: b :: c :: d :: e :: f :: g :: h :: rest =>
    (charAt? [a, b, c, d, e, f, g, h]).bind fun x => consChar x (basicRest rest)
  | '\\' :: c :: rest => (escaped? c).bind fun x => consChar x (basicRest rest)
  | c :: rest => if isPrintable c then consChar c (basicRest rest) else none

/-- A string after its opening single quote. -/
def literalRest : List Char → Option (List Char × List Char)
  | [] => none
  | '\'' :: rest => some ([], rest)
  | c :: rest => if isPrintable c then consChar c (literalRest rest) else none

/-- The first line end after an opening of three quotes does not count. -/
def dropFirstEnd : List Char → List Char
  | '\n' :: rest => rest
  | '\r' :: '\n' :: rest => rest
  | cs => cs

/-- Whether a backslash stands at the end of its line. -/
def endsLine (cs : List Char) : Bool :=
  match cs.dropWhile isBlank with
  | '\n' :: _ => true
  | '\r' :: '\n' :: _ => true
  | _ => false

/-- A string after its opening three double quotes. With `skipping`, blanks and line ends are passed over. -/
def longBasicRest : Bool → List Char → Option (List Char × List Char)
  | _, [] => none
  | true, c :: rest =>
    if isBlank c || c = '\n' then longBasicRest true rest
    else if c = '\r' then
      match rest with
      | '\n' :: more => longBasicRest true more
      | _ => none
    else longBasicRest false (c :: rest)
  | false, '"' :: '"' :: '"' :: '"' :: '"' :: rest => some (['"', '"'], rest)
  | false, '"' :: '"' :: '"' :: '"' :: rest => some (['"'], rest)
  | false, '"' :: '"' :: '"' :: rest => some ([], rest)
  | false, '\\' :: 'u' :: a :: b :: c :: d :: rest =>
    (charAt? [a, b, c, d]).bind fun x => consChar x (longBasicRest false rest)
  | false, '\\' :: 'U' :: a :: b :: c :: d :: e :: f :: g :: h :: rest =>
    (charAt? [a, b, c, d, e, f, g, h]).bind fun x => consChar x (longBasicRest false rest)
  | false, '\\' :: c :: rest =>
    if endsLine (c :: rest) then longBasicRest true (c :: rest)
    else (escaped? c).bind fun x => consChar x (longBasicRest false rest)
  | false, '\r' :: '\n' :: rest => consChar '\n' (longBasicRest false rest)
  | false, c :: rest => if c = '\n' || isPrintable c then consChar c (longBasicRest false rest) else none
termination_by skipping cs => (cs.length, if skipping then 1 else 0)

/-- A string after its opening three single quotes. -/
def longLiteralRest : List Char → Option (List Char × List Char)
  | [] => none
  | '\'' :: '\'' :: '\'' :: '\'' :: '\'' :: rest => some (['\'', '\''], rest)
  | '\'' :: '\'' :: '\'' :: '\'' :: rest => some (['\''], rest)
  | '\'' :: '\'' :: '\'' :: rest => some ([], rest)
  | '\r' :: '\n' :: rest => consChar '\n' (longLiteralRest rest)
  | c :: rest => if c = '\n' || isPrintable c then consChar c (longLiteralRest rest) else none

/-- A string at the start of a text; the outer result is whether there is one, the inner whether it is well formed. -/
def string? : List Char → Option (Option (List Char × List Char))
  | '"' :: '"' :: '"' :: rest => some (longBasicRest false (dropFirstEnd rest))
  | '"' :: rest => some (basicRest rest)
  | '\'' :: '\'' :: '\'' :: rest => some (longLiteralRest (dropFirstEnd rest))
  | '\'' :: rest => some (literalRest rest)
  | _ => none

/-- Digits of some kind, grouped by single underscores between them. -/
def grouped? (isDigit : Char → Bool) (cs : List Char) : Option (List Char) :=
  let groups := Text.splitOn '_' cs
  if groups.all fun g => !g.isEmpty && g.all isDigit then some groups.flatten else none

/-- The parts of a sign and what follows. -/
def splitSign : List Char → Bool × List Char
  | '-' :: rest => (true, rest)
  | '+' :: rest => (false, rest)
  | cs => (false, cs)

/-- Decimal digits without a zero before others. -/
def decimal? (cs : List Char) : Option (List Char) :=
  (grouped? Char.isDigit cs).filter fun digits => digits.length = 1 || digits.head? ≠ some '0'

/-- The value of digits to a base. -/
def valueIn (base : Nat) (digits : List Char) : Nat :=
  digits.foldl (fun n c => base * n + (Json.hexDigit? c).getD 0) 0

/-- A whole number of 64 bits. -/
def integer? (cs : List Char) : Option Int :=
  let based (base : Nat) (isDigit : Char → Bool) (digits : List Char) : Option Int :=
    (grouped? isDigit digits).map fun ds => (valueIn base ds : Int)
  let value : Option Int := match cs with
    | '0' :: 'x' :: digits => based 16 (fun c => (Json.hexDigit? c).isSome) digits
    | '0' :: 'o' :: digits => based 8 (fun c => '0' ≤ c && c ≤ '7') digits
    | '0' :: 'b' :: digits => based 2 (fun c => c = '0' || c = '1') digits
    | _ =>
      let (negative, digits) := splitSign cs
      (decimal? digits).map fun ds => if negative then -(valueIn 10 ds : Int) else valueIn 10 ds
  value.filter fun n => Number.int64Min ≤ n && n ≤ Number.int64Max

/-- Whether a text is a number with a fraction or an exponent, or the name of one that is not finite. -/
def isFraction (cs : List Char) : Bool :=
  let (negative, body) := splitSign cs
  if body = "inf".toList || body = "nan".toList then true
  else
    let mantissa := body.takeWhile fun c => c ≠ 'e' && c ≠ 'E'
    let exponent := body.drop mantissa.length
    let (whole, fraction) := match Text.splitFirst? '.' mantissa with
      | some (whole, fraction) => (whole, some fraction)
      | none => (mantissa, none)
    let exponentDigits := grouped? Char.isDigit (splitSign (exponent.drop 1)).2
    let fractionDigits := fraction.map (grouped? Char.isDigit)
    (decimal? whole).isSome && (fraction.isSome || !exponent.isEmpty) && fractionDigits.all Option.isSome &&
      (exponent.isEmpty || exponentDigits.isSome) &&
      match Number.Binary.ofText? (body.filter (· ≠ '_')) with
      | some (.finite _ _ _) => true
      | some (.infinite _) => negative
      | _ => false

/-- The number written by exactly these digits. -/
def digits? (count : Nat) (cs : List Char) : Option Nat := if cs.length = count then Number.nat? cs else none

/-- The days of a month. -/
def daysIn (year month : Nat) : Nat :=
  if month = 2 then (if year % 4 = 0 && (year % 100 ≠ 0 || year % 400 = 0) then 29 else 28)
  else if month = 4 || month = 6 || month = 9 || month = 11 then 30
  else 31

/-- Whether a text is a day. -/
def isDay (cs : List Char) : Bool :=
  match Text.splitOn '-' cs with
  | [y, m, d] =>
    match digits? 4 y, digits? 2 m, digits? 2 d with
    | some y, some m, some d => 1 ≤ m && m ≤ 12 && 1 ≤ d && d ≤ daysIn y m
    | _, _, _ => false
  | _ => false

/-- Whether a text is an hour and a minute. -/
def isHourMinute (cs : List Char) : Bool :=
  match Text.splitOn ':' cs with
  | [h, m] =>
    match digits? 2 h, digits? 2 m with
    | some h, some m => h ≤ 23 && m ≤ 59
    | _, _ => false
  | _ => false

/-- Whether a text is a time of day. -/
def isTime (cs : List Char) : Bool :=
  isHourMinute (cs.take 5) &&
    match cs.drop 5 with
    | ':' :: a :: b :: rest =>
      (digits? 2 [a, b]).any (· ≤ 60) &&
        match rest with
        | [] => true
        | '.' :: fraction => (Number.nat? fraction).isSome
        | _ => false
    | _ => false

/-- Whether a text is a time of day, perhaps with a distance from world time. -/
def isZonedTime (cs : List Char) : Bool :=
  isTime cs ||
    match cs.getLast? with
    | some 'Z' => isTime cs.dropLast
    | some 'z' => isTime cs.dropLast
    | _ =>
      let zone := cs.drop (cs.length - 6)
      (zone.head? = some '+' || zone.head? = some '-') && isHourMinute (zone.drop 1) && isTime (cs.take (cs.length - 6))

/-- Whether a text is a day, a time, or both. -/
def isDate (cs : List Char) : Bool :=
  isDay cs || isTime cs ||
    (isDay (cs.take 10) &&
      match cs.drop 10 with
      | c :: time => (c = 'T' || c = 't' || c = ' ') && isZonedTime time
      | [] => false)

/-- Characters of words and numbers. -/
def isWordChar (c : Char) : Bool :=
  c.isAlphanum || c = '+' || c = '-' || c = '_' || c = '.' || c = ':'

/-- A word or number at the start of a text. A time may follow a day after a blank. -/
def word (cs : List Char) : List Char × List Char :=
  let first := cs.takeWhile isWordChar
  let rest := cs.dropWhile isWordChar
  match rest with
  | ' ' :: a :: b :: ':' :: more =>
    if isDay first && a.isDigit && b.isDigit then
      let time := (a :: b :: ':' :: more).takeWhile isWordChar
      (first ++ ' ' :: time, (a :: b :: ':' :: more).dropWhile isWordChar)
    else (first, rest)
  | _ => (first, rest)

/-- The value of a word or number. -/
def ofWord? (cs : List Char) : Option Toml :=
  if cs = "true".toList then some (.bool true)
  else if cs = "false".toList then some (.bool false)
  else
    match integer? cs with
    | some n => some (.int n)
    | none => if isFraction cs then some .fractional else if isDate cs then some .moment else none

end CodeAtlas.Toml
