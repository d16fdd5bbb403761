import CodeAtlas.Json.Basic
/-!
# Relational schemas

Tables with their columns, indexes and foreign keys, as described by one schema file. What the reader of a schema could not make
sense of is kept as a warning with its line.
-/

namespace CodeAtlas

namespace Schema

/-- A column of a table. -/
structure Column where
  name : String
  sqlType : String
  nullable : Bool := true
  defaultText : Option String := none
  limit : Option Int := none
  precision : Option Int := none
  scale : Option Int := none
  comment : Option String := none
  primaryKey : Bool := false
deriving Repr, DecidableEq, Inhabited

namespace Column

/-- The column as a part of the primary key, which is never null. -/
def keyed (c : Column) : Column := { c with primaryKey := true, nullable := false }

/-- The column as a record. -/
def toJson (c : Column) : Json :=
  .record [
    ("name", .str c.name),
    ("type", .str c.sqlType),
    ("nullable", .bool c.nullable),
    ("default", .optStr c.defaultText),
    ("limit", .optInt c.limit),
    ("precision", .optInt c.precision),
    ("scale", .optInt c.scale),
    ("comment", .optStr c.comment),
    ("primary_key", .bool c.primaryKey)]

end Column

/-- An index on columns of a table. -/
structure Index where
  name : String
  table : String
  columns : List String
  unique : Bool := false
  /-- The predicate of a partial index. -/
  condition : Option String := none
  accessMethod : Option String := none
deriving Repr, DecidableEq, Inhabited

namespace Index

/-- The name of an index that was given none. -/
def defaultName (table : String) (columns : List String) : String :=
  "index_" ++ table ++ "_on_" ++ "_and_".intercalate columns

/-- An index under its default name. -/
def on (table : String) (columns : List String) : Index :=
  { name := defaultName table columns, table := table, columns := columns }

/-- Whether this is a unique index on exactly one column. -/
def isUniqueOn (i : Index) (column : String) : Bool := i.unique && i.columns == [column]

/-- The index as a record. -/
def toJson (i : Index) : Json :=
  .record [
    ("name", .str i.name),
    ("table", .str i.table),
    ("columns", .strings i.columns),
    ("unique", .bool i.unique),
    ("where", .optStr i.condition),
    ("using", .optStr i.accessMethod)]

end Index

/-- A column that refers to rows of a table. -/
structure ForeignKey where
  fromTable : String
  fromColumn : String
  toTable : String
  toColumn : String := "id"
  onDelete : Option String := none
  onUpdate : Option String := none
  name : Option String := none
deriving Repr, DecidableEq, Inhabited

namespace ForeignKey

/-- The foreign key as a record. -/
def toJson (k : ForeignKey) : Json :=
  .record [
    ("from_table", .str k.fromTable),
    ("from_column", .str k.fromColumn),
    ("to_table", .str k.toTable),
    ("to_column", .str k.toColumn),
    ("on_delete", .optStr k.onDelete),
    ("on_update", .optStr k.onUpdate),
    ("name", .optStr k.name)]

end ForeignKey

/-- A table with its columns in order. -/
structure Table where
  name : String
  primaryKey : List String := []
  comment : Option String := none
  columns : List Column := []
deriving Repr, DecidableEq, Inhabited

namespace Table

/-- A column by its name. -/
def column? (t : Table) (name : String) : Option Column := t.columns.find? (·.name = name)

/-- The table as a record. -/
def toJson (t : Table) : Json :=
  .record [
    ("name", .str t.name),
    ("primary_key", .strings t.primaryKey),
    ("comment", .optStr t.comment),
    ("columns", .arr (t.columns.map Column.toJson))]

end Table

/-- What a reader of a schema could not make sense of. -/
inductive Trouble where
  | missingEnd (table : String)
  | unnamedTable
  | definedTwice (table : String)
  | indexWithoutColumns
  | columnNeedsNameAndType
  | columnWithoutName (sqlType : String)
  | referenceWithoutName
  | indexNeedsTableAndColumns
  | indexOnUnknownTable (table : String)
  | foreignKeyNeedsTables
deriving Repr, DecidableEq

namespace Trouble

/-- The trouble in words. -/
def message : Trouble → String
  | .missingEnd table => "create_table \"" ++ table ++ "\" is missing its end"
  | .unnamedTable => "create_table without a table name"
  | .definedTwice table => "table \"" ++ table ++ "\" is defined twice"
  | .indexWithoutColumns => "index without columns"
  | .columnNeedsNameAndType => "column statement needs a name and a type"
  | .columnWithoutName sqlType => "t." ++ sqlType ++ " without a column name"
  | .referenceWithoutName => "references without a name"
  | .indexNeedsTableAndColumns => "add_index needs a table and columns"
  | .indexOnUnknownTable table => "add_index on unknown table \"" ++ table ++ "\""
  | .foreignKeyNeedsTables => "add_foreign_key needs a source and a target table"

end Trouble

/-- A trouble and the line it was met at. -/
structure Warning where
  line : Nat
  trouble : Trouble
deriving Repr, DecidableEq

/-- The warning as a record. -/
def Warning.toJson (w : Warning) : Json :=
  .record [("line", .nat w.line), ("message", .str w.trouble.message)]

/-- The origin that holds what comes from the schema. -/
def origin : String := "@schema"

end Schema

/-- Everything read from one schema file. -/
structure Schema where
  version : Option String := none
  tables : List Schema.Table := []
  indexes : List Schema.Index := []
  foreignKeys : List Schema.ForeignKey := []
  warnings : List Schema.Warning := []
deriving Repr, DecidableEq, Inhabited

namespace Schema

/-- A table by its name. -/
def table? (s : Schema) (name : String) : Option Table := s.tables.find? (·.name = name)

/-- The names of the tables. -/
def tableNames (s : Schema) : List String := s.tables.map (·.name)

theorem table?_isSome_iff {s : Schema} (name : String) : (s.table? name).isSome = true ↔ name ∈ s.tableNames := by
  rw [table?, List.find?_isSome, tableNames, List.mem_map]
  simp only [decide_eq_true_eq]

/-- The indexes on a table. -/
def indexesOn (s : Schema) (table : String) : List Index := s.indexes.filter (·.table = table)

/-- The number of columns of all tables. -/
def columnCount (s : Schema) : Nat := (s.tables.map (·.columns.length)).foldl (· + ·) 0

/-- The schema as a record. -/
def toJson (s : Schema) : Json :=
  .record [
    ("version", .optStr s.version),
    ("tables", .arr (s.tables.map Table.toJson)),
    ("indexes", .arr (s.indexes.map Index.toJson)),
    ("foreign_keys", .arr (s.foreignKeys.map ForeignKey.toJson)),
    ("warnings", .arr (s.warnings.map Warning.toJson))]

end Schema

end CodeAtlas
