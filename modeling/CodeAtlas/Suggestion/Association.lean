import CodeAtlas.Error
import CodeAtlas.Inflection
import CodeAtlas.Schema.Basic
/-!
# Suggested associations

What the model of a table would declare, read off the foreign keys by naming conventions alone: `belongs_to` for the keys it has,
and `has_many` or `has_one` for those that refer to it. A unique index on the key makes it `has_one`. Keys whose
other table is not known are passed over.
-/

namespace CodeAtlas

/-- The kinds of suggested associations. -/
inductive AssociationKind where
  | belongsTo
  | hasMany
  | hasOne
deriving Repr, DecidableEq, Inhabited

namespace AssociationKind

/-- The word that declares it. -/
def name : AssociationKind → String
  | .belongsTo => "belongs_to"
  | .hasMany => "has_many"
  | .hasOne => "has_one"

/-- Every kind. -/
def all : List AssociationKind := [.belongsTo, .hasMany, .hasOne]

/-- The kind declared by exactly this word. -/
def ofName? (s : String) : Option AssociationKind := all.find? (·.name == s)

/-- The kind a user names. -/
def ofInput (s : String) : Outcome AssociationKind := Error.requireName "association kind" s (ofName? s)

end AssociationKind

/-- The foreign key an association was read from, and the unique index that makes it single. -/
structure Provenance where
  foreignKey : Schema.ForeignKey
  uniqueIndex : Option String := none
deriving Repr, DecidableEq, Inhabited

namespace Provenance

/-- The foreign key in words. -/
def describe (p : Provenance) : String :=
  let k := p.foreignKey
  k.fromTable ++ "." ++ k.fromColumn ++ " -> " ++ k.toTable ++ "." ++ k.toColumn ++
    match p.uniqueIndex with
    | some index => " (unique index " ++ index ++ ")"
    | none => ""

end Provenance

/-- A suggested association of a model. An option is present where the conventions alone would not find it. -/
structure Association where
  model : String
  kind : AssociationKind
  name : String
  className : Option String := none
  dependent : Option String := none
  foreignKey : Option String := none
  inverseOf : String
  provenance : Provenance
deriving Repr, DecidableEq, Inhabited

namespace Association

/-- The options by name, in order. -/
def options (a : Association) : List (String × String) :=
  (a.className.map ("class_name", ·)).toList ++ (a.dependent.map ("dependent", ·)).toList ++
    (a.foreignKey.map ("foreign_key", ·)).toList ++ [("inverse_of", a.inverseOf)]

/-- An option as written in a declaration: names of classes and columns are strings, all else symbols. -/
def optionText (option : String × String) : String :=
  let (key, value) := option
  if key = "class_name" || key = "foreign_key" then ", " ++ key ++ ": \"" ++ value ++ "\""
  else ", " ++ key ++ ": :" ++ value

/-- The declaration. -/
def declaration (a : Association) : String :=
  a.kind.name ++ " :" ++ a.name ++ String.join (a.options.map optionText)

/-- The association as a record. -/
def toJson (a : Association) : Json :=
  .record [
    ("model", .str a.model),
    ("kind", .str a.kind.name),
    ("name", .str a.name),
    ("options", .record (a.options.map fun (k, v) => (k, .str v))),
    ("provenance", .record [
      ("foreign_key", a.provenance.foreignKey.toJson),
      ("unique_index", .optStr a.provenance.uniqueIndex)])]

end Association

namespace Suggestion

open Schema Inflection

/-- The name of the side that holds the key. -/
def ownerName (k : ForeignKey) : String := (idStem? k.fromColumn).getD (singularize k.toTable)

/-- The unique index on the key's column alone. -/
def coveringIndex? (k : ForeignKey) (indexes : List Index) : Option Index :=
  indexes.find? fun i => i.table = k.fromTable && i.isUniqueOn k.fromColumn

/-- Kind and name of the side that the key refers to. -/
def inverseSide (k : ForeignKey) (indexes : List Index) : AssociationKind × String :=
  if (coveringIndex? k indexes).isSome then (.hasOne, singularize k.fromTable) else (.hasMany, k.fromTable)

/-- What becomes of dependent rows. -/
def dependentFor : String → Option String
  | "cascade" => some "destroy"
  | "nullify" => some "nullify"
  | "set_null" => some "nullify"
  | "restrict" => some "restrict_with_exception"
  | _ => none

/-- An option that is present only if it differs from what the conventions give. -/
def differing (expected actual : String) : Option String := if expected = actual then none else some actual

/-- The association of the side that holds the key. -/
def owning (model : String) (indexes : List Index) (k : ForeignKey) : Association where
  model := model
  kind := .belongsTo
  name := ownerName k
  className := differing (camelize (ownerName k)) (classify k.toTable)
  dependent := k.onDelete.bind dependentFor
  foreignKey := differing (singularize k.toTable ++ "_id") k.fromColumn
  inverseOf := (inverseSide k indexes).2
  provenance := { foreignKey := k }

/-- The association of the side that the key refers to. A name in use gets the name of the other side added. -/
def owned (table model : String) (indexes : List Index) (used : List String) (k : ForeignKey) : Association :=
  let (kind, plain) := inverseSide k indexes
  let name := if used.contains plain then plain ++ "_as_" ++ ownerName k else plain
  { model := model
    kind := kind
    name := name
    className := differing (camelize (singularize name)) (classify k.fromTable)
    foreignKey := differing (singularize table ++ "_id") k.fromColumn
    inverseOf := ownerName k
    provenance := { foreignKey := k, uniqueIndex := (coveringIndex? k indexes).map (·.name) } }

/-- The associations of the sides that keys refer to, where the names in `used` are taken. -/
def ownedAll (table model : String) (indexes : List Index) : List String → List ForeignKey → List Association
  | _, [] => []
  | used, k :: rest =>
    let a := owned table model indexes used k
    a :: ownedAll table model indexes (a.name :: used) rest

/-- The associations of the model of a table. -/
def associations (table : String) (foreignKeys : List ForeignKey) (known : List String) (indexes : List Index) :
    List Association :=
  let model := classify table
  let own := (foreignKeys.filter fun k => k.fromTable = table && known.contains k.toTable).map (owning model indexes)
  let other := foreignKeys.filter fun k => k.toTable = table && known.contains k.fromTable
  own ++ ownedAll table model indexes (own.map (·.name)) other

end Suggestion

end CodeAtlas
