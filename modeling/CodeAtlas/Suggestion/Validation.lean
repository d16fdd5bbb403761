import CodeAtlas.Json.Printer
import CodeAtlas.Schema.Basic
import CodeAtlas.Text.Basic
import CodeAtlas.Text.Quoted
/-!
# Suggested validations

What the model of a table would check before a row is written, read off the constraints of its columns and its unique
indexes.
-/

namespace CodeAtlas

/-- What a validation checks. -/
inductive Check where
  | presence
  | length (maximum : Int)
  | numericality (onlyInteger nonNegative : Bool)
  | uniqueness (condition : Option String) (scope : List String)
deriving Repr, DecidableEq

namespace Check

/-- The name of the check. -/
def name : Check → String
  | .presence => "presence"
  | .length _ => "length"
  | .numericality _ _ => "numericality"
  | .uniqueness _ _ => "uniqueness"

/-- The options of the check, in order. -/
def options : Check → List (String × Json)
  | .presence => []
  | .length maximum => [("maximum", .int maximum)]
  | .numericality onlyInteger nonNegative =>
    (if nonNegative then [("greater_than_or_equal_to", .int 0)] else []) ++
      (if onlyInteger then [("only_integer", .bool true)] else [])
  | .uniqueness condition scope =>
    (condition.map fun c => ("conditions", Json.str c)).toList ++
      (if scope.isEmpty then [] else [("scope", .strings scope)])

/-- A symbol as written in a declaration. -/
def symbolText (name : String) : String := ":" ++ name

/-- The options as written in a declaration. -/
def optionTexts : Check → List String
  | .presence => []
  | .length maximum => ["maximum: " ++ toString maximum]
  | .numericality onlyInteger nonNegative =>
    (if nonNegative then ["greater_than_or_equal_to: 0"] else []) ++
      (if onlyInteger then ["only_integer: true"] else [])
  | .uniqueness condition scope =>
    (condition.map fun c => "conditions: -> \x7b where(" ++ Text.quoted c ++ ") \x7d").toList ++
      (if scope.isEmpty then [] else ["scope: [" ++ ", ".intercalate (scope.map symbolText) ++ "]"])

end Check

/-- A suggested validation of some columns. -/
structure Validation where
  attributes : List String
  check : Check
deriving Repr, DecidableEq

namespace Validation

/-- The declaration. -/
def declaration (v : Validation) : String :=
  let columns := ", ".intercalate (v.attributes.map Check.symbolText)
  match v.check.optionTexts with
  | [] => "validates " ++ columns ++ ", " ++ v.check.name ++ ": true"
  | texts => "validates " ++ columns ++ ", " ++ v.check.name ++ ": \x7b " ++ ", ".intercalate texts ++ " \x7d"

/-- The validation as a record. -/
def toJson (v : Validation) : Json :=
  .record [
    ("kind", .str v.check.name),
    ("attributes", .strings v.attributes),
    ("options", .record v.check.options)]

end Validation

namespace Suggestion

open Schema

/-- Types of whole numbers. -/
def integerTypes : List String := ["integer", "bigint", "smallint"]

/-- Types of numbers. -/
def numericTypes : List String := integerTypes ++ ["decimal", "numeric", "float"]

/-- Parts of names that suggest an amount which is never negative. -/
def amountHints : List String := ["price", "cost", "amount", "total", "fee", "balance", "salary", "cents"]

/-- Whether a column belongs to the primary key. -/
def isKey (t : Table) (name : String) : Bool :=
  t.primaryKey.contains name || (t.column? name).any (·.primaryKey)

/-- Whether a row must be given a value for this column: it may not be null, has no default, is no key and records no time. -/
def mustBeGiven (t : Table) (c : Column) : Bool :=
  !c.nullable && c.defaultText.isNone && !isKey t c.name &&
    !Text.endsWith "_at".toList c.name.toList && !Text.endsWith "_on".toList c.name.toList

/-- One check of presence for all columns that must be given. -/
def presence (t : Table) : List Validation :=
  match (t.columns.filter (mustBeGiven t)).map (·.name) with
  | [] => []
  | names => [⟨names, .presence⟩]

/-- A check of length for each string with a limit. -/
def lengths (t : Table) : List Validation :=
  t.columns.filterMap fun c =>
    if c.sqlType = "string" then c.limit.map fun limit => ⟨[c.name], .length limit⟩ else none

/-- A check for each number that is no key. -/
def numericality (t : Table) : List Validation :=
  (t.columns.filter fun c => numericTypes.contains c.sqlType && !isKey t c.name).map fun c =>
    ⟨[c.name], .numericality (integerTypes.contains c.sqlType)
      (amountHints.any fun hint => Text.occursIn hint.toList c.name.toList)⟩

/-- A check for each unique index: on its first column, within rows that agree on the others. -/
def uniqueness (t : Table) (indexes : List Index) : List Validation :=
  (indexes.filter fun i => i.unique && i.table = t.name).filterMap fun i =>
    match i.columns with
    | [] => none
    | first :: rest => some ⟨[first], .uniqueness i.condition rest⟩

/-- The validations of the model of a table. -/
def validations (t : Table) (indexes : List Index) : List Validation :=
  presence t ++ lengths t ++ numericality t ++ uniqueness t indexes

end Suggestion

end CodeAtlas
