import CodeAtlas.Json.Printer
/-!
# Literals

The values that stand as arguments of a declaration such as `has_many :posts, dependent: :destroy`. What is no
literal (a lambda, a constant, an expression) is kept as raw text. Numbers that are not whole are kept as written.
-/

namespace CodeAtlas

/-- A literal value. -/
inductive Literal where
  | str (text : String)
  | sym (name : String)
  | int (value : Int)
  | number (text : String)
  | bool (value : Bool)
  | nil
  | array (items : List Literal)
  | hash (pairs : List (String × Literal))
  | raw (text : String)
deriving Inhabited, Repr

namespace Literal

/-- The contents of a string or symbol. -/
def name? : Literal → Option String
  | .str s => some s
  | .sym s => some s
  | _ => none

/-- The whole part of a number. -/
def int? : Literal → Option Int
  | .int n => some n
  | .number text => (Number.Binary.ofText? text.toList).map (·.truncate)
  | _ => none

/-- Everything but `false` and `nil` counts as true. -/
def isTruthy : Literal → Bool
  | .bool false => false
  | .nil => false
  | _ => true

/-- One name, or the names in a list. -/
def names : Literal → List String
  | .array items => items.filterMap name?
  | other => other.name?.toList

/-- The pairs of a hash. -/
def pairs? : Literal → Option (List (String × Literal))
  | .hash pairs => some pairs
  | _ => none

mutual

/-- The value as JSON; symbols and what is kept as written become strings. -/
def toJson : Literal → Json
  | .str s => .str s
  | .sym s => .str s
  | .number s => .str s
  | .raw s => .str s
  | .int n => .int n
  | .bool b => .bool b
  | .nil => .null
  | .array items => .arr (itemsToJson items)
  | .hash pairs => .record (pairsToJson pairs)

/-- `toJson` on every item. -/
def itemsToJson : List Literal → List Json
  | [] => []
  | item :: rest => item.toJson :: itemsToJson rest

/-- `toJson` on every pair. -/
def pairsToJson : List (String × Literal) → List (String × Json)
  | [] => []
  | (key, value) :: rest => (key, value.toJson) :: pairsToJson rest

end

mutual

/-- The text recorded for a default or an option; `nil` has none. -/
def text? : Literal → Option String
  | .str s => some s
  | .sym s => some s
  | .number s => some s
  | .raw s => some s
  | .int n => some (toString n)
  | .bool b => some (if b then "true" else "false")
  | .nil => none
  | .array items => some ("[" ++ ", ".intercalate (itemTexts items) ++ "]")
  | .hash pairs => some (Json.record (pairsToJson pairs)).compact

/-- The texts of the items that have one. -/
def itemTexts : List Literal → List String
  | [] => []
  | item :: rest => item.text?.toList ++ itemTexts rest

end

end Literal

end CodeAtlas
