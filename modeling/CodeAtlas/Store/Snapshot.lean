import CodeAtlas.Json.Basic
import CodeAtlas.Store
/-!
# Snapshots

An index written as a JSON value, and read back. Everything an index holds is in its snapshot, the ids to be given next included, so that
an index goes on after reading as it would have gone on before writing.
-/

namespace CodeAtlas

namespace Snapshot

/-- A field with a text. -/
def text? (j : Json) (name : String) : Option String := (j.get? name).bind Json.str?

/-- A field with a text or nothing. -/
def optText? (j : Json) (name : String) : Option (Option String) :=
  match j.get? name with
  | some .null => some none
  | some (.str s) => some (some s)
  | _ => none

/-- A field with a whole number. -/
def int? (j : Json) (name : String) : Option Int :=
  match j.get? name with
  | some (.int n) => some n
  | _ => none

/-- A field with a whole number or nothing. -/
def optInt? (j : Json) (name : String) : Option (Option Int) :=
  match j.get? name with
  | some .null => some none
  | some (.int n) => some (some n)
  | _ => none

/-- A field with a number that is not negative. -/
def nat? (j : Json) (name : String) : Option Nat := (int? j name).bind Int.toNat?

/-- A field with a truth value. -/
def bool? (j : Json) (name : String) : Option Bool := (j.get? name).bind Json.bool?

/-- A field with a list, each item read in turn. -/
def list? {α : Type} (read : Json → Option α) (j : Json) (name : String) : Option (List α) :=
  match j.get? name with
  | some (.arr items) => items.mapM read
  | _ => none

/-- A field with a list of texts. -/
def texts? (j : Json) (name : String) : Option (List String) := list? Json.str? j name

/-- A field with one of the values of a fixed list. -/
def named? {α : Type} (ofName? : String → Option α) (j : Json) (name : String) : Option α :=
  (text? j name).bind ofName?

/-- Reads a file. -/
def file? (j : Json) : Option FileRecord := do
  return {
    id := ← int? j "id", path := ← text? j "path", fingerprint := ← text? j "fingerprint"
    category := ← named? Category.ofName? j "category", lineCount := ← nat? j "line_count"
    modified := ← optInt? j "mtime", indexedAt := ← int? j "indexed_at" }

/-- Reads a symbol. -/
def symbol? (j : Json) : Option Symbol := do
  return {
    id := ← optInt? j "id", path := ← text? j "path", name := ← text? j "name"
    kind := ← named? SymbolKind.ofName? j "kind", enclosing := ← optText? j "enclosing_name"
    startLine := ← nat? j "start_line", endLine := ← nat? j "end_line"
    visibility := ← named? Visibility.ofName? j "visibility", signature := ← optText? j "signature"
    documentation := ← optText? j "documentation" }

/-- A symbol with its file. -/
def ownedJson (s : OwnedSymbol) : Json := .record [("file", .int s.file), ("symbol", s.symbol.toJson)]

/-- Reads a symbol with its file. -/
def owned? (j : Json) : Option OwnedSymbol := do
  return { file := ← int? j "file", symbol := ← symbol? (← j.get? "symbol") }

/-- Reads where a node is defined. -/
def anchor? (j : Json) : Option Anchor := do
  return { path := ← text? j "path", startLine := ← nat? j "start_line", endLine := ← nat? j "end_line" }

/-- Reads a field with an anchor or nothing. -/
def optAnchor? (j : Json) : Option (Option Anchor) :=
  match j.get? "anchor" with
  | some .null => some none
  | some value => (anchor? value).map some
  | none => none

/-- Reads a node. -/
def node? (j : Json) : Option Node := do
  return {
    id := ← int? j "id", kind := ← named? NodeKind.ofName? j "kind", key := ← text? j "key", label := ← text? j "label"
    source := ← named? NodeSource.ofName? j "source", anchor := ← optAnchor? j, metadata := ← j.get? "metadata" }

/-- An edge with its holders. -/
def edgeJson (e : Edge) : Json := e.toJson.set "holders" (.strings e.holders)

/-- Reads an edge with its holders. -/
def edge? (j : Json) : Option Edge := do
  return {
    id := ← int? j "id", kind := ← named? EdgeKind.ofName? j "kind", source := ← int? j "src_id"
    target := ← int? j "dst_id", locations := ← texts? j "locations", metadata := ← j.get? "metadata"
    origin := ← optText? j "origin", holders := ← texts? j "holders" }

/-- Reads a column. -/
def column? (j : Json) : Option Schema.Column := do
  return {
    name := ← text? j "name", sqlType := ← text? j "type", nullable := ← bool? j "nullable"
    defaultText := ← optText? j "default", limit := ← optInt? j "limit", precision := ← optInt? j "precision"
    scale := ← optInt? j "scale", comment := ← optText? j "comment", primaryKey := ← bool? j "primary_key" }

/-- Reads a table. -/
def table? (j : Json) : Option Schema.Table := do
  return {
    name := ← text? j "name", primaryKey := ← texts? j "primary_key", comment := ← optText? j "comment"
    columns := ← list? column? j "columns" }

/-- Reads an index of a table. -/
def index? (j : Json) : Option Schema.Index := do
  return {
    name := ← text? j "name", table := ← text? j "table", columns := ← texts? j "columns", unique := ← bool? j "unique"
    condition := ← optText? j "where", accessMethod := ← optText? j "using" }

/-- Reads a foreign key. -/
def foreignKey? (j : Json) : Option Schema.ForeignKey := do
  return {
    fromTable := ← text? j "from_table", fromColumn := ← text? j "from_column", toTable := ← text? j "to_table"
    toColumn := ← text? j "to_column", onDelete := ← optText? j "on_delete", onUpdate := ← optText? j "on_update"
    name := ← optText? j "name" }

/-- Reads a stored schema. -/
def schema? (j : Json) : Option Schema := do
  return {
    tables := ← list? table? j "tables", indexes := ← list? index? j "indexes"
    foreignKeys := ← list? foreignKey? j "foreign_keys" }

/-- A note. -/
def noteJson (note : String × String) : Json := .strings [note.1, note.2]

/-- Reads a note. -/
def note? : Json → Option (String × String)
  | .arr [.str key, .str value] => some (key, value)
  | _ => none

end Snapshot

namespace Store

open Snapshot

/-- The snapshot of an index. -/
def toSnapshot (s : Store) : Json :=
  .record [
    ("files", .arr (s.catalog.files.map FileRecord.toJson)),
    ("symbols", .arr (s.catalog.symbols.map ownedJson)),
    ("next_file", .int s.catalog.nextFile),
    ("next_symbol", .int s.catalog.nextSymbol),
    ("nodes", .arr (s.graph.nodes.map Node.toJson)),
    ("edges", .arr (s.graph.edges.map edgeJson)),
    ("next_node", .int s.graph.nextNode),
    ("next_edge", .int s.graph.nextEdge),
    ("schema", s.schema.toJson),
    ("notes", .arr (s.notes.map noteJson))]

/-- The index of a snapshot. -/
def ofSnapshot? (j : Json) : Option Store := do
  return {
    catalog := {
      files := ← list? file? j "files", symbols := ← list? owned? j "symbols", nextFile := ← int? j "next_file"
      nextSymbol := ← int? j "next_symbol" }
    graph := {
      nodes := ← list? node? j "nodes", edges := ← list? edge? j "edges", nextNode := ← int? j "next_node"
      nextEdge := ← int? j "next_edge" }
    schema := ← schema? (← j.get? "schema")
    notes := ← list? Snapshot.note? j "notes" }

end Store

end CodeAtlas
