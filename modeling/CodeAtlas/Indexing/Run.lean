import CodeAtlas.Extractor.Basic
import CodeAtlas.Indexing.Refresh
import CodeAtlas.Tree.Walk
/-!
# Runs

A run brings the index up to date with a tree. Files are read and compared with their fingerprints; those that changed are outlined and
committed one by one, those that are gone are removed, and then the schema is looked at. A failure of one file is
reported and does not stop the run.
-/

namespace CodeAtlas

/-- What a run looks at. `schema` is the path of the schema file, if there is one. -/
structure IndexOptions where
  schema : Option String := none
  extensions : List String := ["rb"]
  exclude : List String := []
  extractor : Extractor := .lines
deriving Repr, DecidableEq, Inhabited

/-- A run under way. -/
structure Run where
  desk : Desk
  report : IndexReport
  events : List IndexEvent := []

namespace Run

/-- Tells an event. -/
def tell (r : Run) (event : IndexEvent) : Run := { r with events := r.events ++ [event] }

/-- Reports a failure. -/
def fail (r : Run) (path : String) (cause : FailureCause) : Run := { r with report := r.report.fail path cause }

end Run

namespace Indexing

/-- The seconds of a time of change, where it is not before the clock began. -/
def modifiedSeconds (f : SourceFile) : Option Int := if 0 ≤ f.modified then some f.modified else none

/-- A file that was read. -/
def pendingFile (path : String) (f : SourceFile) : PendingFile :=
  { path := path, text := f.text, fingerprint := fingerprint f.bytes, modified := modifiedSeconds f }

/-- What becomes of a file after it was read. -/
inductive Reading where
  | unreadable
  | unchanged
  | pending (file : PendingFile)
deriving Repr, DecidableEq, Inhabited

/-- Reads a file. One with the known fingerprint is unchanged, unless `force` is set. -/
def read (t : Tree) (known : String → Option String) (force : Bool) (path : String) : Reading :=
  match t.file? path with
  | none => .unreadable
  | some f =>
    let file := pendingFile path f
    if !force && known path = some file.fingerprint then .unchanged else .pending file

/-- Reads files and counts them; gives those that are to be outlined. -/
def readFiles (t : Tree) (known : String → Option String) (force : Bool) :
    List String → IndexReport → List PendingFile × IndexReport
  | [], report => ([], report)
  | path :: rest, report =>
    let report := { report with considered := report.considered + 1 }
    match read t known force path with
    | .unreadable =>
      readFiles t known force rest
        (report.fail path .unreadable)
    | .unchanged => readFiles t known force rest { report with unchanged := report.unchanged + 1 }
    | .pending file =>
      let (files, report) := readFiles t known force rest report
      (file :: files, report)

/-- What an extractor is given of a file. -/
def inputOf (t : Tree) (file : PendingFile) : SourceInput :=
  { path := file.path, absolutePath := Path.join t.root file.path, text := file.text }

/-- Commits a file whose outline was had, or reports why it was not. -/
def commitExtracted (now : Int) (r : Run) (file : PendingFile) (extracted : Outcome Outline) : Run :=
  let (desk, outcome) : Desk × Outcome ProjectionStats := match extracted with
    | .error e => (⟨r.desk.store, r.desk.cache.rollback⟩, .error e)
    | .ok outline => commitFile now r.desk file outline
  match outcome with
  | .ok _ =>
    { r with desk := desk, report := { r.report with indexed := r.report.indexed + 1 } }.tell (.fileDone file.path true)
  | .error e => ({ r with desk := desk }.fail file.path (.refused e)).tell (.fileDone file.path false)

/-- Commits files in the given order. -/
def commitAll (now : Int) (r : Run) (extracted : List (PendingFile × Outcome Outline)) : Run :=
  extracted.foldl (fun r (file, outline) => commitExtracted now r file outline) r

/-- Removes a file that is gone. -/
def removeGone (r : Run) (path : String) : Run :=
  match removeFile r.desk path with
  | (desk, .ok _) => { r with desk := desk, report := { r.report with removed := r.report.removed + 1 } }
  | (desk, .error e) => { r with desk := desk }.fail path (.refused e)

/-- The end of a run: the schema, the time, and the counts. -/
def finish (t : Tree) (options : IndexOptions) (now : Int) (force : Bool) (r : Run) : Run :=
  let r := r.tell .schema
  let force := force || 0 < r.report.indexed + r.report.removed
  let r := match options.schema with
    | none => r
    | some path =>
      let (desk, summary) := refreshSchema t r.desk path force
      { r with desk := desk, report := { r.report with schema := some summary } }
  let store := r.desk.store.setNote Store.lastRun (toString now)
  let stats := store.stats
  let report := { r.report with
    symbolsByKind := stats.symbolsByKind, nodesByKind := stats.nodesByKind, edgesByKind := stats.edgesByKind }
  { r with desk := { r.desk with store := store }, report := report }.tell .finished

/-- The files to be read and the files that are gone, after those with failures were reported. -/
structure Plan where
  targets : List String := []
  gone : List String := []
  report : IndexReport

/-- Carries out a plan. -/
def execute (t : Tree) (options : IndexOptions) (now : Int) (force full : Bool) (store : Store) (plan : Plan) : Run :=
  let (files, report) := readFiles t store.catalog.fingerprint? force plan.targets plan.report
  let r : Run := { desk := { store := store }, report := report }
  let r := r.tell (.extracting files.length)
  let r := commitAll now r (files.map fun file => (file, options.extractor.extract t (inputOf t file)))
  let r := plan.gone.foldl removeGone r
  finish t options now full r

/-- Sorted, and each once. -/
def sortedPaths (paths : List String) : List String :=
  (paths.mergeSort fun a b => a ≤ b).foldl (fun done p => if done.getLast? = some p then done else done ++ [p]) []

/-- A run over all files of a tree. A full run starts from an empty index, which is left behind also if the exclusions are at fault. -/
def run (t : Tree) (options : IndexOptions) (now : Int) (mode : RunMode) (store : Store) : Store × Outcome Run :=
  let store := if mode = .full then store.clear else store
  match t.sources options.extensions options.exclude with
  | .error e => (store, .error e)
  | .ok files =>
    let gone := (store.catalog.files.map (·.path)).filter fun path => !files.contains path
    let r := execute t options now false (mode = .full) store
      { targets := files, gone := sortedPaths gone, report := { mode := mode } }
    (r.desk.store, .ok r)

/-- Adds a path to a plan: a file is read, one that is gone is removed, and anything else is a failure. -/
def planPath (t : Tree) (c : Catalog) (plan : Plan) (path : String) : Plan :=
  let absolute := Path.join t.root path
  match Path.relative? t.root absolute with
  | none => { plan with report := plan.report.fail path .outsideRoot }
  | some inner =>
    if t.isFile absolute then { plan with targets := plan.targets ++ [inner] }
    else if (c.file? inner).isSome then { plan with gone := plan.gone ++ [inner] }
    else { plan with report := plan.report.fail inner .noSuchFile }

/-- A run over given paths, whether the files changed or not. -/
def indexPaths (t : Tree) (options : IndexOptions) (now : Int) (paths : List String) (store : Store) : Run :=
  let plan := paths.foldl (planPath t store.catalog) { report := { mode := .incremental } }
  execute t options now true false store
    { plan with targets := sortedPaths plan.targets, gone := sortedPaths plan.gone }

end Indexing

end CodeAtlas
