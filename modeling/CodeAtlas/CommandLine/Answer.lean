import CodeAtlas.CommandLine.Output
import CodeAtlas.Display.Grid
import CodeAtlas.Indexing.Report
import CodeAtlas.Json.Printer
import CodeAtlas.Query.Explanation
import CodeAtlas.Query.Files
import CodeAtlas.Query.Ranking
import CodeAtlas.Query.Snippet
import CodeAtlas.Query.Status
import CodeAtlas.Query.Tables
/-!
# Answers for people

How the results of queries and runs are shown: as lines, lists and grids.
-/

namespace CodeAtlas.CommandLine

open Output

namespace Answer

/-- A grid as a line of its own. -/
def grid (header : List String) (rows : List (List String)) : Output :=
  line (Grid.render { header := header, rows := rows })

/-- Counts by name. -/
def counts (t : Tally) : Output := concat (t.map fun (name, n) => row name (toString n))

/-- What a run did to the schema. -/
def schema (s : SchemaSummary) : Output :=
  heading "Schema" ++
    match s.error with
    | some e => error (s.path ++ ": " ++ e.message)
    | none =>
      if s.missing then row s.path "not found"
      else
        row s.path (toString s.tables ++ " tables, " ++ toString s.columns ++ " columns, " ++ toString s.indexes ++
          " indexes, " ++ toString s.foreignKeys ++ " foreign keys (" ++
          (if s.rebuilt then "rebuilt" else "unchanged") ++ ")") ++
          concat (s.warnings.map fun w => warn (s.path ++ ":" ++ toString w.line ++ ": " ++ w.trouble.message))

/-- A number of milliseconds. -/
def duration (ms : Nat) : String :=
  if 1000 ≤ ms then String.ofList ((Number.Binary.ofRatio false ms 1000).fixed 2) ++ "s" else toString ms ++ "ms"

/-- What a run did. -/
def report (r : IndexReport) : Output :=
  heading (r.mode.name ++ " run") ++
    row "Considered" (toString r.considered) ++
    row "Indexed" (toString r.indexed) ++
    row "Unchanged" (toString r.unchanged) ++
    row "Removed" (toString r.removed) ++
    row "Failed" (toString r.failed) ++
    concat (r.failures.map fun f => error (f.path ++ ": " ++ f.cause.message)) ++
    whenSome r.schema schema ++
    onlyIf (!r.nodesByKind.isEmpty) (heading "Graph" ++ counts r.nodesByKind) ++
    line "" ++
    (if r.failed = 0 then success "Indexing complete"
      else warn ("Indexing complete with " ++ toString r.failed ++ " failures")) ++
    header .clock (duration r.milliseconds)

/-- The results of a search. -/
def search (query : String) (hits : List SearchHit) : Output :=
  header .search ("Searching for '" ++ query ++ "'") ++
    if hits.isEmpty then warn "No symbols found."
    else
      grid ["Score", "Kind", "Symbol", "Location"] (hits.map fun hit =>
        [toString hit.score, hit.symbol.kind.name, hit.symbol.qualifiedName,
          hit.symbol.path ++ ":" ++ toString hit.symbol.startLine])

/-- Lines of a file. -/
def snippet (s : Snippet) : Output :=
  let title := match s.symbol with
    | some symbol => symbol.qualifiedName ++ " (" ++ symbol.kind.name ++ ")"
    | none => s.path
  header .file title ++
    line (s.path ++ ":" ++ toString s.startLine ++ "-" ++ toString s.endLine ++ " of " ++ toString s.totalLines) ++
    line s.text ++
    onlyIf s.truncated (warn "Truncated; ask for a narrower range to see more.") ++
    concat (s.alternatives.map fun other => line ("also defined at " ++ other))

/-- The tests of a file. -/
def tests (path : String) (found : List String) : Output :=
  onlyIf found.isEmpty (warn ("No tests found for " ++ path)) ++ concat (found.map (header .test))

/-- A list of paths under a title, if there are any. -/
def pathList (title : String) (paths : List String) : Output :=
  onlyIf (!paths.isEmpty) (heading title ++ concat (paths.map fun path => line ("  " ++ path)))

/-- What a file holds. -/
def summary (s : FileSummary) : Output :=
  header .file s.file.path ++
    info "Category" s.file.category.name ++
    info "Lines" (toString s.file.lineCount) ++
    concat (s.symbols.map fun (kind, symbols) =>
      heading (kind ++ " (" ++ toString symbols.length ++ ")") ++
        concat (symbols.map fun symbol =>
          row symbol.qualifiedName (toString symbol.startLine ++ "-" ++ toString symbol.endLine))) ++
    pathList "Requires" s.requires ++
    pathList "Required by" s.requiredBy

/-- Files that are built alike. -/
def similar (path : String) (least : Number.Binary) (found : List SimilarFile) : Output :=
  if found.isEmpty then
    warn ("No files similar to " ++ path ++ " (threshold " ++ String.ofList least.plain ++ ")")
  else
    grid ["File", "Category", "Similarity", "Shared"] (found.map fun f =>
      [f.path, f.category.name, String.ofList ((Number.Binary.ofFloat f.similarity).fixed 2), ", ".intercalate f.shared])

/-- The tables of the schema. -/
def tables (found : List Schema.TableSummary) : Output :=
  if found.isEmpty then warn "No schema tables indexed."
  else
    grid ["Table", "Columns", "Indexes", "Primary key"] (found.map fun t =>
      [t.name, toString t.columnCount, toString t.indexCount, ", ".intercalate t.primaryKey])

/-- A column of a table. -/
def columnRow (c : Schema.Column) : List String :=
  [if c.primaryKey then c.name ++ " (pk)" else c.name, c.sqlType, if c.nullable then "yes" else "no",
    c.defaultText.getD "", (c.limit.map toString).getD ""]

/-- A table and what concerns it. -/
def table (d : TableDescription) : Output :=
  let keys := d.references ++ d.referencedBy
  header .table d.table.name ++
    status .file "Model" (d.model ++ " (" ++ d.modelPath.getD "not indexed" ++ ")") ++
    whenSome d.table.comment (status .info "Comment") ++
    heading "Columns" ++
    grid ["Column", "Type", "Null", "Default", "Limit"] (d.table.columns.map columnRow) ++
    onlyIf (!d.indexes.isEmpty) (heading "Indexes" ++
      grid ["Index", "Columns", "Unique"] (d.indexes.map fun i =>
        [i.name, ", ".intercalate i.columns, if i.unique then "yes" else ""])) ++
    onlyIf (!keys.isEmpty) (heading "Foreign keys" ++ concat (keys.map fun k =>
      line ("  " ++ Icon.text .link ++ " " ++ k.fromTable ++ "." ++ k.fromColumn ++ " -> " ++ k.toTable ++ "." ++
        k.toColumn)))

/-- Suggested associations. -/
def associations (table : String) (found : List Association) : Output :=
  if found.isEmpty then warn ("No foreign keys involve " ++ table)
  else
    header .link ("class " ++ Inflection.classify table) ++
      concat (found.map fun a => line ("  " ++ a.declaration) ++ line ("    " ++ a.provenance.describe))

/-- Suggested validations. -/
def validations (table : String) (found : List Validation) : Output :=
  if found.isEmpty then warn ("Nothing to validate on " ++ table)
  else header .check ("class " ++ Inflection.classify table) ++ concat (found.map fun v => line ("  " ++ v.declaration))

/-- Where a node is defined. -/
def location (n : Node) : String :=
  match n.anchor with
  | some a => a.path ++ ":" ++ toString a.startLine
  | none => if n.isInferred then "(inferred)" else ""

/-- Nodes in a grid. -/
def nodeGrid (nodes : List Node) : Output :=
  grid ["Id", "Kind", "Key", "Source", "Location"] (nodes.map fun n =>
    [toString n.id, n.kind.name, n.reference, n.source.name, location n])

/-- Nodes that were found. -/
def nodes (found : List Node) : Output := if found.isEmpty then warn "No nodes found." else nodeGrid found

/-- What a node of a neighbourhood is called there. -/
def nameIn (hood : Neighborhood) (id : Int) : String :=
  match hood.node? id with
  | some n => n.kind.name ++ ":" ++ n.reference
  | none => toString id

/-- A neighbourhood. -/
def neighborhood (hood : Neighborhood) : Output :=
  header .node (nameIn hood hood.start ++ " (depth " ++ toString hood.depth ++ ")") ++
    nodeGrid hood.nodes ++
    onlyIf (!hood.edges.isEmpty) (heading "Edges" ++ concat (hood.edges.map fun e =>
      line ("  " ++ nameIn hood e.source ++ " -" ++ e.kind.name ++ "-> " ++ nameIn hood e.target)))

/-- The stored schema is older than its file. -/
def staleSchema (reason : String) : Output := warn ("Schema is stale, last parse failed: " ++ reason)

/-- Whether metadata say anything. -/
def isTelling : Json → Bool
  | .obj fields => !fields.isEmpty
  | _ => false

/-- A node explained. -/
def explanation (e : Explanation) : Output :=
  let n := e.node
  header .node (n.kind.name ++ " " ++ n.reference) ++
    status .info "Id" (toString n.id) ++
    status .info "Source" n.source.name ++
    onlyIf (location n ≠ "") (status .file "Location" (location n)) ++
    onlyIf (isTelling n.metadata) (status .info "Metadata" n.metadata.compact) ++
    whenSome e.schemaError staleSchema ++
    onlyIf (!e.edgeCounts.isEmpty) (heading "Edges" ++ concat (e.edgeCounts.map fun c =>
      row (c.kind.name ++ " (" ++ c.direction.name ++ ")") (toString c.count))) ++
    onlyIf (!e.neighbors.isEmpty) (heading "Neighbors" ++ nodeGrid e.neighbors) ++
    onlyIf (!e.nextActions.isEmpty) (heading "Next" ++ concat (e.nextActions.map fun a =>
      line ("  " ++ Icon.text .hint ++ " " ++ a.action ++ " " ++ a.target ++ "  " ++ a.reason)))

/-- The state of an index. -/
def indexStatus (database : String) (s : IndexStatus) : Output :=
  let stats := s.stats
  let rows := [
    ["Files", toString stats.files],
    ["Symbols", toString stats.symbols],
    ["Nodes", toString stats.nodes],
    ["Edges", toString stats.edges],
    ["Tables", toString stats.tables],
    ["Columns", toString stats.columns],
    ["Foreign keys", toString stats.foreignKeys]] ++
    (if s.schemaIndexed then [] else [["Schema", "not indexed"]])
  let part (title : String) (t : Tally) : Output := onlyIf (!t.isEmpty) (heading title ++ counts t)
  header .stats ("Repodex index for " ++ s.root) ++
    status .database "Database" database ++
    grid ["Metric", "Value"] rows ++
    whenSome s.schemaError staleSchema ++
    part "Files by category" stats.filesByCategory ++
    part "Nodes by kind" stats.nodesByKind ++
    part "Edges by kind" stats.edgesByKind ++
    whenSome stats.lastRun fun time => line "" ++ info "Last run (unix time)" (toString time)

end Answer

end CodeAtlas.CommandLine
