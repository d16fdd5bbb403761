import CodeAtlas.Fingerprint
import CodeAtlas.Indexing.Report
import CodeAtlas.Outline.Basic
import CodeAtlas.Projection.File
import CodeAtlas.Projection.Schema
import CodeAtlas.Schema.Reader
import CodeAtlas.Tree.Basic
/-!
# Units of a run

An index changes by units: a file is committed or removed, or the schema is rebuilt or removed. A unit that fails leaves the index as it was. The cache
of a run goes along: what a unit recorded is kept if it succeeds and dropped if it fails.
-/

namespace CodeAtlas

/-- An index together with the cache of the run that works on it. -/
structure Desk where
  store : Store
  cache : BuildCache := {}
deriving Inhabited

namespace Desk

/-- Takes over what a projection did, together with the other changes of its unit; if it failed, nothing but the cache is touched. -/
def settle (d : Desk) (next : Graph → Store) (result : Projection.Result) : Desk × Outcome ProjectionStats :=
  match result.outcome with
  | .ok stats => (⟨next result.graph, result.cache.commit⟩, .ok stats)
  | .error e => (⟨d.store, result.cache.rollback⟩, .error e)

end Desk

/-- A file that was read and is to be outlined. -/
structure PendingFile where
  path : String
  text : String
  fingerprint : String
  modified : Option Int
deriving Repr, DecidableEq, Inhabited

namespace Indexing

/-- The stored form of a declaration. -/
def symbolOf (path : String) (d : Declaration) : Symbol :=
  { path := path, name := d.name, kind := d.kind, enclosing := d.enclosing, startLine := d.startLine
    endLine := d.endLine, visibility := d.visibility, signature := d.signature, documentation := d.documentation }

/-- The category of a file: the one its outline gives, if there is such a category, or else the one its path tells. -/
def categoryOf (path : String) (o : Outline) : Category :=
  match o.category.map Category.ofInput with
  | some (.ok category) => category
  | _ => Category.classify path

/-- The outline of a file with its gaps filled in. -/
def completed (file : PendingFile) (o : Outline) : Outline :=
  { o with
    fingerprint := some (o.fingerprint.getD file.fingerprint)
    category := some (categoryOf file.path o).name
    lineCount := some (o.lineCount.getD (Text.lines file.text.toList).length) }

/-- Enters a file and its symbols, and projects its outline. -/
def commitFile (now : Int) (d : Desk) (file : PendingFile) (o : Outline) : Desk × Outcome ProjectionStats :=
  let category := categoryOf file.path o
  let o := completed file o
  let (catalog, id) := d.store.catalog.upsertFile {
    path := file.path, fingerprint := file.fingerprint, category := category, lineCount := o.lineCount.getD 0
    modified := file.modified, indexedAt := now }
  match catalog.replaceSymbols id (o.declarations.map (symbolOf file.path)) with
  | .error e => (⟨d.store, d.cache.rollback⟩, .error e)
  | .ok catalog =>
    d.settle (fun graph => { d.store with catalog := catalog, graph := graph })
      (Projection.projectFile catalog d.store.graph d.cache file.path category o)

/-- Removes a file, its symbols, and what it said. -/
def removeFile (d : Desk) (path : String) : Desk × Outcome ProjectionStats :=
  let catalog := (d.store.catalog.removeFile path).1
  d.settle (fun graph => { d.store with catalog := catalog, graph := graph })
    (Projection.retractFile catalog d.store.graph d.cache path)

/-- Stores a schema in place of the old one, and projects it. -/
def commitSchema (d : Desk) (fingerprint : String) (s : Schema) : Desk × Outcome ProjectionStats :=
  d.settle
    (fun graph =>
      ({ d.store with schema := s.stored, graph := graph }.setNote Store.schemaFingerprint fingerprint).dropNote
        Store.schemaError)
    (Projection.projectSchema d.store.catalog d.store.graph d.cache s)

/-- Removes the schema and what it said. -/
def removeSchema (d : Desk) : Desk × Outcome ProjectionStats :=
  d.settle
    (fun graph =>
      ({ d.store with schema := {}, graph := graph }.dropNote Store.schemaFingerprint).dropNote Store.schemaError)
    (Projection.retractSchema d.store.catalog d.store.graph d.cache)

end Indexing

end CodeAtlas
