import CodeAtlas.Error
import CodeAtlas.Schema.Basic
import CodeAtlas.Store
/-!
# Reports of a run

What a run did to each file and to the schema, and the counts of what the index holds afterwards.
-/

namespace CodeAtlas

/-- How a run chooses files: all of them into an empty index, or those that changed. -/
inductive RunMode where
  | full
  | incremental
deriving Repr, DecidableEq, Inhabited

/-- The name of a mode. -/
def RunMode.name : RunMode → String
  | .full => "full"
  | .incremental => "incremental"

/-- Why a file was not indexed. -/
inductive FailureCause where
  | outsideRoot
  | noSuchFile
  /-- A file that was there, and could not be read. -/
  | unreadable
  | refused (error : Error)
deriving Repr, DecidableEq

/-- The cause in words. -/
def FailureCause.message : FailureCause → String
  | .outsideRoot => "outside the indexed root"
  | .noSuchFile => "no such file"
  | .unreadable => "No such file or directory (os error 2)"
  | .refused e => e.message

/-- A file that was not indexed. -/
structure FileFailure where
  path : String
  cause : FailureCause
deriving Repr, DecidableEq

/-- The failure as a record. -/
def FileFailure.toJson (f : FileFailure) : Json :=
  .record [("path", .str f.path), ("error", .str f.cause.message)]

/-- What a run did to the schema. It was rebuilt, or found unchanged, missing or unreadable. -/
structure SchemaSummary where
  path : String
  rebuilt : Bool := false
  missing : Bool := false
  tables : Nat := 0
  columns : Nat := 0
  indexes : Nat := 0
  foreignKeys : Nat := 0
  warnings : List Schema.Warning := []
  error : Option Error := none
deriving Repr, DecidableEq

namespace SchemaSummary

/-- The counts of a schema. -/
def ofSchema (path : String) (s : Schema) : SchemaSummary :=
  { path := path, tables := s.tables.length, columns := s.columnCount, indexes := s.indexes.length
    foreignKeys := s.foreignKeys.length }

/-- The summary as a record. -/
def toJson (s : SchemaSummary) : Json :=
  .record [
    ("path", .str s.path),
    ("rebuilt", .bool s.rebuilt),
    ("missing", .bool s.missing),
    ("tables", .nat s.tables),
    ("columns", .nat s.columns),
    ("indexes", .nat s.indexes),
    ("foreign_keys", .nat s.foreignKeys),
    ("warnings", .arr (s.warnings.map Schema.Warning.toJson)),
    ("error", .optStr (s.error.map Error.message))]

end SchemaSummary

/-- What a run did. -/
structure IndexReport where
  mode : RunMode
  considered : Nat := 0
  indexed : Nat := 0
  unchanged : Nat := 0
  removed : Nat := 0
  failures : List FileFailure := []
  milliseconds : Nat := 0
  symbolsByKind : Tally := []
  nodesByKind : Tally := []
  edgesByKind : Tally := []
  schema : Option SchemaSummary := none
deriving Repr

namespace IndexReport

/-- The number of failures. -/
def failed (r : IndexReport) : Nat := r.failures.length

/-- Adds a failure. -/
def fail (r : IndexReport) (path : String) (cause : FailureCause) : IndexReport :=
  { r with failures := r.failures ++ [⟨path, cause⟩] }

/-- The line about the schema. -/
def schemaLine (s : SchemaSummary) : String :=
  "  Schema: " ++ toString s.tables ++ " tables, " ++ toString s.columns ++ " columns" ++
    (if s.rebuilt then " (rebuilt)" else "")

/-- The report in words. -/
def describe (r : IndexReport) : String :=
  "\n".intercalate ([
    "Index Report (" ++ r.mode.name ++ "):",
    "  Considered: " ++ toString r.considered,
    "  Indexed: " ++ toString r.indexed,
    "  Unchanged: " ++ toString r.unchanged,
    "  Removed: " ++ toString r.removed,
    "  Failed: " ++ toString r.failed] ++
    (r.schema.map schemaLine).toList ++ ["  Duration: " ++ toString r.milliseconds ++ "ms"])

/-- The report as a record. -/
def toJson (r : IndexReport) : Json :=
  .record [
    ("mode", .str r.mode.name),
    ("considered", .nat r.considered),
    ("indexed", .nat r.indexed),
    ("unchanged", .nat r.unchanged),
    ("failed", .nat r.failed),
    ("removed", .nat r.removed),
    ("failures", .arr (r.failures.map FileFailure.toJson)),
    ("duration_ms", .nat r.milliseconds),
    ("symbols_by_kind", r.symbolsByKind.toJson),
    ("nodes_by_kind", r.nodesByKind.toJson),
    ("edges_by_kind", r.edgesByKind.toJson),
    ("schema", .ofOption SchemaSummary.toJson r.schema)]

end IndexReport

/-- What a run tells while it goes on. -/
inductive IndexEvent where
  | extracting (total : Nat)
  | fileDone (path : String) (ok : Bool)
  | schema
  | finished
deriving Repr, DecidableEq, Inhabited

/-- The event as a list. -/
def IndexEvent.toJson : IndexEvent → Json
  | .extracting total => .arr [.str "extracting", .nat total]
  | .fileDone path ok => .arr [.str "file", .str path, .bool ok]
  | .schema => .arr [.str "schema"]
  | .finished => .arr [.str "finished"]

end CodeAtlas
