import CodeAtlas.Number.Binary
/-!
# JSON values

The free-form data of the index: metadata of nodes and edges, options of associations, answers for other
programs. A record keeps its fields in the order they were given, so that a reader can see a field given
twice; `Json.canonical` sorts the fields by name and lets the last of equal names win, and `Json.record` builds records
in that form.
-/

namespace CodeAtlas

/-- A JSON value. -/
inductive Json where
  | null
  | bool (value : Bool)
  | int (value : Int)
  | real (value : Number.Binary)
  | str (value : String)
  | arr (items : List Json)
  | obj (fields : List (String × Json))
deriving Inhabited, Repr

namespace Json

/-- Puts a field at its place in a sorted record, over one of the same name. -/
def insertField (name : String) (value : Json) : List (String × Json) → List (String × Json)
  | [] => [(name, value)]
  | (other, held) :: rest =>
    if name = other then (name, value) :: rest
    else if name < other then (name, value) :: (other, held) :: rest
    else (other, held) :: insertField name value rest

/-- Fields sorted by name; of equal names the last one wins. -/
def sortFields (fields : List (String × Json)) : List (String × Json) :=
  fields.foldl (fun sorted (name, value) => insertField name value sorted) []

/-- A record with these fields. -/
def record (fields : List (String × Json)) : Json := .obj (sortFields fields)

mutual

/-- The same value with every record sorted. -/
def canonical : Json → Json
  | .arr items => .arr (canonicalItems items)
  | .obj fields => .obj (sortFields (canonicalFields fields))
  | value => value

/-- `canonical` on every item. -/
def canonicalItems : List Json → List Json
  | [] => []
  | item :: rest => item.canonical :: canonicalItems rest

/-- `canonical` on every field. -/
def canonicalFields : List (String × Json) → List (String × Json)
  | [] => []
  | (name, value) :: rest => (name, value.canonical) :: canonicalFields rest

end

/-- The value of a field of a record. -/
def get? (name : String) : Json → Option Json
  | .obj fields => fields.lookup name
  | _ => none

/-- A record with one field set; values that are no records stay. -/
def set (record : Json) (name : String) (value : Json) : Json :=
  match record with
  | .obj fields => .obj (insertField name value fields)
  | other => other

/-- The text of a string value. -/
def str? : Json → Option String
  | .str s => some s
  | _ => none

/-- The truth value of a Boolean. -/
def bool? : Json → Option Bool
  | .bool b => some b
  | _ => none

/-- A list of texts. -/
def strings (items : List String) : Json := .arr (items.map .str)

/-- A natural number. -/
def nat (n : Nat) : Json := .int n

/-- What an absent value becomes. -/
def ofOption {α : Type} (f : α → Json) : Option α → Json
  | some a => f a
  | none => .null

/-- An absent text becomes `null`. -/
def optStr (s : Option String) : Json := ofOption .str s

/-- An absent number becomes `null`. -/
def optInt (n : Option Int) : Json := ofOption .int n

end Json

end CodeAtlas
