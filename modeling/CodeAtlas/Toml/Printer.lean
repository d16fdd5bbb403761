import CodeAtlas.Text.Basic
import CodeAtlas.Json.Printer
import CodeAtlas.Toml.Basic
/-!
# Writing TOML text

A string is written in the first of four kinds of quotes that takes it without an escape: double quotes, single quotes, three double quotes,
three single quotes. One that no kind takes stands in double quotes, with escapes. An array of more than one item has a line for each.
-/

namespace CodeAtlas.Toml

/-- Whether a character needs an escape in any kind of quotes. -/
def needsEscape (c : Char) : Bool := (c.toNat < 0x20 && c ≠ '\t' && c ≠ '\n') || c.toNat = 0x7F

/-- The longest run of a character, where `current` have just been met. -/
def longestRun (mark : Char) : Nat → List Char → Nat
  | current, [] => current
  | current, c :: cs => if c = mark then longestRun mark (current + 1) cs else max current (longestRun mark 0 cs)

/-- The quotes around a string. -/
inductive Quotes where
  /-- Double quotes, three of them if `several` lines may stand between. -/
  | basic (several : Bool)
  /-- Single quotes, between which nothing is escaped. -/
  | literal (several : Bool)
deriving Repr, DecidableEq, Inhabited

namespace Quotes

/-- The quotes on either side. -/
def delimiter : Quotes → List Char
  | basic several => List.replicate (if several then 3 else 1) '"'
  | literal several => List.replicate (if several then 3 else 1) '\''

/-- How many quotes of its own kind may stand side by side between such quotes. -/
def allowedRun (several : Bool) : Nat := if several then 2 else 0

/-- Whether a string can stand between these quotes as it is. -/
def fits (cs : List Char) : Quotes → Bool
  | basic several =>
    !cs.any needsEscape && !cs.contains '\\' && longestRun '"' 0 cs ≤ allowedRun several &&
      (several || !cs.contains '\n')
  | literal several =>
    !cs.any needsEscape && longestRun '\'' 0 cs ≤ allowedRun several && (several || !cs.contains '\n')

/-- The quotes that a string is written in. -/
def forString (cs : List Char) : Quotes :=
  ([basic false, literal false, basic true, literal true].find? (fits cs)).getD (basic (cs.contains '\n'))

end Quotes

/-- A character between double quotes; a line end may stand as it is if `several` lines are written. -/
def escapeChar (several : Bool) (c : Char) : List Char :=
  if c = '\\' then ['\\', '\\']
  else if c = '\t' then ['\\', 't']
  else if c = '\n' then (if several then ['\n'] else ['\\', 'n'])
  else if c = '\r' then ['\\', 'r']
  else if c.toNat = 8 then ['\\', 'b']
  else if c.toNat = 12 then ['\\', 'f']
  else if needsEscape c then
    '\\' :: 'u' :: '0' :: '0' :: [(Json.hexChar (c.toNat / 16)).toUpper, (Json.hexChar (c.toNat % 16)).toUpper]
  else [c]

/-- A string between double quotes, where `run` quotes have just been written. A quote is escaped if it would be one too many. -/
def escapeAll (several : Bool) : Nat → List Char → List Char
  | _, [] => []
  | run, c :: cs =>
    if c = '"' then
      if run < Quotes.allowedRun several then '"' :: escapeAll several (run + 1) cs
      else '\\' :: '"' :: escapeAll several 0 cs
    else escapeChar several c ++ escapeAll several 0 cs

/-- A string. A line end after the opening quotes is not part of it, so one stands there before a string of several lines. -/
def stringText (s : String) : String :=
  let cs := s.toList
  let quotes := Quotes.forString cs
  let body := match quotes with
    | .basic several => escapeAll several 0 cs
    | .literal _ => cs
  String.ofList (quotes.delimiter ++ (if cs.contains '\n' then ['\n'] else []) ++ body ++ quotes.delimiter)

/-- A list of strings. -/
def stringsText : List String → String
  | [] => "[]"
  | [s] => "[" ++ stringText s ++ "]"
  | items => "[\n" ++ String.join (items.map fun s => "    " ++ stringText s ++ ",\n") ++ "]"

/-- A line that assigns a value. -/
def assignmentText (key value : String) : String := key ++ " = " ++ value ++ "\n"

/-- A table under a header. -/
def tableText (name : String) (lines : List String) : String := "[" ++ name ++ "]\n" ++ String.join lines

end CodeAtlas.Toml
