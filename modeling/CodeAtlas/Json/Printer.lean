import CodeAtlas.Json.Basic
/-!
# JSON text

Values on one line (`Json.compact`) or over several lines indented by two blanks (`Json.pretty`). In a string
quote, backslash and the control characters are escaped and all else is written as it is. A number that is not
whole is written with the fewest digits that read back, and always shows a point or an exponent.
-/

namespace CodeAtlas.Json

/-- The hexadecimal digit of a value below sixteen. -/
def hexChar (n : Nat) : Char := (Nat.toDigits 16 (n % 16)).headD '0'

/-- A character inside a string. -/
def escapeChar (c : Char) : List Char :=
  if c = '"' then ['\\', '"']
  else if c = '\\' then ['\\', '\\']
  else if c = '\n' then ['\\', 'n']
  else if c = '\r' then ['\\', 'r']
  else if c = '\t' then ['\\', 't']
  else if c.toNat = 8 then ['\\', 'b']
  else if c.toNat = 12 then ['\\', 'f']
  else if c.toNat < 32 then ['\\', 'u', '0', '0', hexChar (c.toNat / 16), hexChar c.toNat]
  else [c]

/-- A string with its quotes. -/
def quote (s : String) : String :=
  String.ofList ('"' :: s.toList.flatMap escapeChar ++ ['"'])

/-- Where positional notation ends: with more than this many digits before the point, or this many zeros after
it, an exponent is written. -/
def realText : Number.Binary → String
  | .finite negative m e =>
    if m = 0 then (if negative then "-0.0" else "0.0")
    else
      let (digits, scale) := Number.Binary.shortest m e
      let text := Number.Binary.natText digits
      -- number of digits before the point
      let point : Int := text.length + scale
      let body :=
        if 0 ≤ scale && point ≤ 16 then text ++ List.replicate scale.toNat '0' ++ ['.', '0']
        else if 0 < point && point ≤ 16 then text.take point.toNat ++ '.' :: text.drop point.toNat
        else if -5 < point && point ≤ 0 then
          '0' :: '.' :: List.replicate (-point).toNat '0' ++ text
        else
          let power := (toString (point - 1)).toList
          match text with
          | [d] => d :: 'e' :: power
          | d :: more => d :: '.' :: more ++ 'e' :: power
          | [] => []
      String.ofList (Number.Binary.signed negative body)
  | _ => "null"

mutual

/-- The value on one line. -/
def compact : Json → String
  | .null => "null"
  | .bool b => if b then "true" else "false"
  | .int n => toString n
  | .real x => realText x
  | .str s => quote s
  | .arr items => "[" ++ ",".intercalate (compactItems items) ++ "]"
  | .obj fields => "\x7b" ++ ",".intercalate (compactFields fields) ++ "\x7d"

/-- The items, each on one line. -/
def compactItems : List Json → List String
  | [] => []
  | item :: rest => item.compact :: compactItems rest

/-- The fields, each on one line. -/
def compactFields : List (String × Json) → List String
  | [] => []
  | (name, value) :: rest => (quote name ++ ":" ++ value.compact) :: compactFields rest

end

/-- Parts on lines of their own between two brackets. -/
def block (opening closing indent : String) (parts : List String) : String :=
  if parts.isEmpty then opening ++ closing
  else
    opening ++ "\n" ++ (",\n".intercalate (parts.map fun part => indent ++ "  " ++ part)) ++ "\n" ++ indent ++
      closing

mutual

/-- The value over several lines, where `indent` stands before the line it starts on. -/
def prettyAt (indent : String) : Json → String
  | .arr items => block "[" "]" indent (prettyItems (indent ++ "  ") items)
  | .obj fields => block "\x7b" "\x7d" indent (prettyFields (indent ++ "  ") fields)
  | .null => "null"
  | .bool b => if b then "true" else "false"
  | .int n => toString n
  | .real x => realText x
  | .str s => quote s

/-- The items over several lines. -/
def prettyItems (indent : String) : List Json → List String
  | [] => []
  | item :: rest => item.prettyAt indent :: prettyItems indent rest

/-- The fields over several lines. -/
def prettyFields (indent : String) : List (String × Json) → List String
  | [] => []
  | (name, value) :: rest =>
    (quote name ++ ": " ++ value.prettyAt indent) :: prettyFields indent rest

end

/-- The value over several lines. -/
def pretty (value : Json) : String := value.prettyAt ""

end CodeAtlas.Json
