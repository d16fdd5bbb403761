import CodeAtlas.Schema.Basic
import CodeAtlas.Projection.Unit
import CodeAtlas.Inflection
/-!
# Projecting the schema

The schema as a unit: nodes for tables, columns and indexes, edges from a table to its columns and indexes, from a model class to
the table behind it, and from a column to the table it refers to, which is declared by a foreign key or told by the column's name.
-/

namespace CodeAtlas.Projection

open CodeAtlas.Schema CodeAtlas.Inflection

/-- The table that a column named after `stem` refers to: the plural of the stem, or else a table whose singular it is. -/
def inferTable? (stem : String) (names : List String) : Option String :=
  (names.find? (· = pluralize stem)).or (names.find? (singularize · = stem))

/-- The key of the node of a column. -/
def columnKey (table column : String) : String := table ++ "." ++ column

/-- Writes the nodes of tables and gives their ids by name. -/
def writeTables : List Table → Build (List (String × Int))
  | [] => return []
  | t :: rest => do
    let id ← writeNode {
      kind := .table, key := t.name, source := .fromSchema
      metadata := .record [
        ("primary_key", .strings t.primaryKey), ("comment", .optStr t.comment),
        ("columns", .nat t.columns.length)] }
    let ids ← writeTables rest
    return (t.name, id) :: ids

/-- Writes the columns of a table and gives the ids of their nodes by key. -/
def writeColumns (tableIds : List (String × Int)) (names : List String) (t : Table) (tableId : Int) :
    List Column → Build (List (String × Int))
  | [] => return []
  | c :: rest => do
    let key := columnKey t.name c.name
    let id ← writeNode {
      kind := .column, key := key, label := some c.name, source := .fromSchema
      metadata := .record [
        ("table", .str t.name), ("type", .str c.sqlType), ("nullable", .bool c.nullable),
        ("default", .optStr c.defaultText), ("limit", .optInt c.limit), ("primary_key", .bool c.primaryKey)] }
    writeEdge origin { kind := .hasColumn, source := tableId, target := id }
    match ((idStem? c.name).bind (inferTable? · names)).bind fun target => tableIds.lookup target with
    | some target =>
      writeEdge origin {
        kind := .references, source := id, target := target, metadata := .obj [("explicit", .bool false)] }
    | none => pure ()
    let ids ← writeColumns tableIds names t tableId rest
    return (key, id) :: ids

/-- Writes the edge from the model class of a table, if there is such a class. -/
def writeBacking (t : Table) (tableId : Int) : Build Unit := do
  let w ← get
  let model := classify t.name
  match (w.cache.lookup .classDecl model).or (w.graph.nodeId? .classDecl model) with
  | some id => writeEdge origin { kind := .backs, source := id, target := tableId }
  | none => return ()

/-- Writes what the tables hold and gives the ids of the columns' nodes by key. -/
def writeContents (tableIds : List (String × Int)) (names : List String) :
    List Table → Build (List (String × Int))
  | [] => return []
  | t :: rest =>
    match tableIds.lookup t.name with
    | none => writeContents tableIds names rest
    | some tableId => do
      let ids ← writeColumns tableIds names t tableId t.columns
      writeBacking t tableId
      let more ← writeContents tableIds names rest
      return ids ++ more

/-- Writes the declared foreign keys between known columns and tables. -/
def writeForeignKeys (tableIds columnIds : List (String × Int)) : List ForeignKey → Build Unit
  | [] => return ()
  | k :: rest => do
    match columnIds.lookup (columnKey k.fromTable k.fromColumn), tableIds.lookup k.toTable with
    | some column, some target =>
      writeEdge origin {
        kind := .references, source := column, target := target
        metadata := .record [
          ("explicit", .bool true), ("to_column", .str k.toColumn), ("on_delete", .optStr k.onDelete),
          ("on_update", .optStr k.onUpdate), ("name", .optStr k.name)] }
    | _, _ => pure ()
    writeForeignKeys tableIds columnIds rest

/-- Writes the indexes on known tables. -/
def writeIndexes (tableIds : List (String × Int)) : List Index → Build Unit
  | [] => return ()
  | i :: rest => do
    match tableIds.lookup i.table with
    | some tableId =>
      let id ← writeNode {
        kind := .index, key := i.name, source := .fromSchema
        metadata := .record [
          ("table", .str i.table), ("columns", .strings i.columns), ("unique", .bool i.unique),
          ("where", .optStr i.condition), ("using", .optStr i.accessMethod)] }
      writeEdge origin { kind := .hasIndex, source := tableId, target := id }
    | none => pure ()
    writeIndexes tableIds rest

/-- Writes everything a schema says. -/
def writeSchema (s : Schema) : Build Unit := do
  let tableIds ← writeTables s.tables
  let columnIds ← writeContents tableIds s.tableNames s.tables
  writeForeignKeys tableIds columnIds s.foreignKeys
  writeIndexes tableIds s.indexes

/-- Projects a schema in place of the one before. -/
def projectSchema (c : Catalog) (g : Graph) (cache : BuildCache) (s : Schema) : Result :=
  runUnit c g cache origin (g.bySource .fromSchema) (writeSchema s)

/-- Takes back all that the schema said. -/
def retractSchema (c : Catalog) (g : Graph) (cache : BuildCache) : Result := projectSchema c g cache {}

end CodeAtlas.Projection
