import CodeAtlas.Catalog.Basic
import CodeAtlas.Graph.Store
import CodeAtlas.Schema.Stored
/-!
# The index

Everything an index holds: the catalog of files and symbols, the graph, the schema, and a few notes about the last run. An
index is a value, so a unit of work that fails leaves the old one as it was.
-/

namespace CodeAtlas

/-- An index. -/
structure Store where
  catalog : Catalog := {}
  graph : Graph := {}
  schema : Schema := {}
  notes : List (String × String) := []
deriving Inhabited

/-- The note with the fingerprint of the schema file that was read last. -/
def Store.schemaFingerprint : String := "schema_fingerprint"

/-- The note with the last error in reading the schema file; what is stored is from before. -/
def Store.schemaError : String := "schema_error"

/-- The note with the time of the last run. -/
def Store.lastRun : String := "last_run"

/-- Counts by name, in order. -/
abbrev Tally := List (String × Nat)

namespace Tally

/-- Adds one to the count of a name. -/
def add (name : String) : Tally → Tally
  | [] => [(name, 1)]
  | (other, n) :: rest =>
    if name = other then (other, n + 1) :: rest
    else if name < other then (name, 1) :: (other, n) :: rest
    else (other, n) :: add name rest

/-- Counts how often each name occurs. -/
def ofNames (names : List String) : Tally := names.foldl (fun t name => add name t) []

/-- The counts as a record. -/
def toJson (t : Tally) : Json := .obj (t.map fun (name, n) => (name, .nat n))

end Tally

/-- What an index holds, in numbers. -/
structure Stats where
  files : Nat
  symbols : Nat
  nodes : Nat
  edges : Nat
  tables : Nat
  columns : Nat
  foreignKeys : Nat
  filesByCategory : Tally
  symbolsByKind : Tally
  nodesByKind : Tally
  edgesByKind : Tally
  lastRun : Option Int
deriving Repr, Inhabited

namespace Stats

/-- The numbers in words. -/
def describe (s : Stats) : String :=
  "Database Statistics:\n  Files: " ++ toString s.files ++ "\n  Symbols: " ++ toString s.symbols ++ "\n  Nodes: " ++
    toString s.nodes ++ "\n  Edges: " ++ toString s.edges ++ "\n  Tables: " ++ toString s.tables ++ " (" ++
    toString s.columns ++ " columns, " ++ toString s.foreignKeys ++ " foreign keys)\n"

/-- The numbers as fields of a record. -/
def fields (s : Stats) : List (String × Json) :=
  [("files", .nat s.files),
    ("symbols", .nat s.symbols),
    ("nodes", .nat s.nodes),
    ("edges", .nat s.edges),
    ("tables", .nat s.tables),
    ("columns", .nat s.columns),
    ("foreign_keys", .nat s.foreignKeys),
    ("files_by_category", s.filesByCategory.toJson),
    ("symbols_by_kind", s.symbolsByKind.toJson),
    ("nodes_by_kind", s.nodesByKind.toJson),
    ("edges_by_kind", s.edgesByKind.toJson),
    ("last_run", .optInt s.lastRun)]

end Stats

namespace Store

/-- A note. -/
def note? (s : Store) (key : String) : Option String := s.notes.lookup key

/-- Takes a note. -/
def setNote (s : Store) (key value : String) : Store :=
  { s with notes := (key, value) :: s.notes.filter (·.1 ≠ key) }

/-- Drops a note. -/
def dropNote (s : Store) (key : String) : Store := { s with notes := s.notes.filter (·.1 ≠ key) }

/-- An index that holds nothing; ids go on where they were. -/
def clear (s : Store) : Store := { catalog := s.catalog.clear, graph := s.graph.clear }

/-- What the index holds, in numbers. -/
def stats (s : Store) : Stats where
  files := s.catalog.files.length
  symbols := s.catalog.symbols.length
  nodes := s.graph.nodes.length
  edges := s.graph.edges.length
  tables := s.schema.tables.length
  columns := s.schema.columnCount
  foreignKeys := s.schema.foreignKeys.length
  filesByCategory := Tally.ofNames (s.catalog.files.map (·.category.name))
  symbolsByKind := Tally.ofNames (s.catalog.symbols.map (·.symbol.kind.name))
  nodesByKind := Tally.ofNames (s.graph.nodes.map (·.kind.name))
  edgesByKind := Tally.ofNames (s.graph.edges.map (·.kind.name))
  lastRun := (s.note? lastRun).bind fun text => Number.int64? text.toList

end Store

end CodeAtlas
