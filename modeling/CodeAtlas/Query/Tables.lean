import CodeAtlas.Store
import CodeAtlas.Suggestion.Association
import CodeAtlas.Suggestion.Validation
/-!
# Queries about tables

A table of the stored schema with its indexes, its foreign keys in both directions and its model, and what the model would declare.
-/

namespace CodeAtlas

/-- A table and what concerns it. `modelPath` is where the model is defined, if it is indexed. -/
structure TableDescription where
  table : Schema.Table
  indexes : List Schema.Index
  references : List Schema.ForeignKey
  referencedBy : List Schema.ForeignKey
  model : String
  modelPath : Option String
deriving Repr, DecidableEq, Inhabited

/-- The description as a record. -/
def TableDescription.toJson (d : TableDescription) : Json :=
  .record [
    ("table", d.table.toJson),
    ("indexes", .arr (d.indexes.map Schema.Index.toJson)),
    ("references", .arr (d.references.map Schema.ForeignKey.toJson)),
    ("referenced_by", .arr (d.referencedBy.map Schema.ForeignKey.toJson)),
    ("model", .str d.model),
    ("model_path", .optStr d.modelPath)]

namespace Store

/-- A stored table by its name. -/
def requireTable (s : Store) (name : String) : Outcome Schema.Table :=
  match s.schema.table? name with
  | some table => .ok table
  | none => .error (.notFound (.table name))

/-- A table and what concerns it. -/
def describeTable (s : Store) (name : String) : Outcome TableDescription :=
  (s.requireTable name).map fun table =>
    let model := Inflection.classify name
    { table := table
      indexes := s.schema.indexesOn name
      references := s.schema.foreignKeys.filter (·.fromTable = name)
      referencedBy := s.schema.foreignKeys.filter fun k => k.fromTable ≠ name && k.toTable = name
      model := model
      modelPath := ((s.graph.find? .classDecl model).bind (·.anchor)).map (·.path) }

/-- The associations that the model of a table would declare. -/
def suggestAssociations (s : Store) (table : String) : Outcome (List Association) :=
  (s.requireTable table).map fun _ =>
    Suggestion.associations table s.schema.foreignKeys s.schema.tableNames s.schema.indexes

/-- The validations that the model of a table would declare. -/
def suggestValidations (s : Store) (table : String) : Outcome (List Validation) :=
  (s.requireTable table).map fun t => Suggestion.validations t (s.schema.indexesOn table)

end Store

end CodeAtlas
