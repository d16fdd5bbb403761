import CodeAtlas.Schema.Basic
/-!
# The stored schema

A schema as kept in the index. Version and warnings are not kept. Of several indexes with one name on one table the last is kept, at
its place; an index on a table that is not there is dropped.
-/

namespace CodeAtlas.Schema

/-- Drops every index that is followed by one with its table and name. -/
def lastIndexes : List Index → List Index
  | [] => []
  | i :: rest =>
    if rest.any fun j => j.table = i.table && j.name = i.name then lastIndexes rest else i :: lastIndexes rest

/-- The form in which a schema is kept. -/
def stored (s : Schema) : Schema :=
  { tables := s.tables
    indexes := lastIndexes (s.indexes.filter fun i => (s.table? i.table).isSome)
    foreignKeys := s.foreignKeys }

/-- The indexes of one table, or of all. -/
def indexesOf (s : Schema) : Option String → List Index
  | some table => s.indexesOn table
  | none => s.indexes

/-- A table in a list of tables. -/
structure TableSummary where
  name : String
  columnCount : Nat
  indexCount : Nat
  primaryKey : List String
  comment : Option String
deriving Repr, DecidableEq, Inhabited

/-- The summary as a record. -/
def TableSummary.toJson (t : TableSummary) : Json :=
  .record [
    ("name", .str t.name),
    ("column_count", .nat t.columnCount),
    ("index_count", .nat t.indexCount),
    ("primary_key", .strings t.primaryKey),
    ("comment", .optStr t.comment)]

/-- The tables by name. -/
def summaries (s : Schema) : List TableSummary :=
  (s.tables.mergeSort fun a b => a.name ≤ b.name).map fun t =>
    { name := t.name, columnCount := t.columns.length, indexCount := (s.indexesOn t.name).length
      primaryKey := t.primaryKey, comment := t.comment }

/-- The number of columns of each table that has any. -/
def columnCounts (s : Schema) : List (String × Nat) :=
  (s.tables.filter (!·.columns.isEmpty)).map fun t => (t.name, t.columns.length)

end CodeAtlas.Schema
