import CodeAtlas.Proofs.Indexing.Upkeep
/-!
# What a run does to the schema

At its end a run looks at the schema file, and one of five things happens (`Refreshed`): there is no file and no stored
schema, or what is stored is removed; the file is the one that is stored, and left alone; it is refused, and a note says
so; or it is stored anew. Before that the files are worked on, which touches neither the notes nor the stored schema, and
nothing at all if no file was indexed or removed (`Leaves`). `Performed` puts the two together.
-/

namespace CodeAtlas

namespace Store

theorem lookup_filter_of_ne {key other : String} (h : other ≠ key) (notes : List (String × String)) :
    (notes.filter (·.1 ≠ key)).lookup other = notes.lookup other := by
  induction notes with
  | nil => rfl
  | cons note rest ih =>
      obtain ⟨name, value⟩ := note
      by_cases hname : name = key
      · have hother : (other == name) = false := by
          rw [hname]
          exact beq_false_of_ne h
        rw [List.filter_cons_of_neg (by simpa using hname), ih, List.lookup_cons, hother]
      · rw [List.filter_cons_of_pos (by simpa using hname), List.lookup_cons, List.lookup_cons, ih]

theorem lookup_filter_self (key : String) (notes : List (String × String)) :
    (notes.filter (·.1 ≠ key)).lookup key = none := by
  rw [List.lookup_eq_none_iff]
  intro note hnote
  have hne := (List.mem_filter.1 hnote).2
  simp only [ne_eq, decide_not, Bool.not_eq_true', decide_eq_false_iff_not] at hne
  exact bne_iff_ne.2 fun h => hne h.symm

variable (s : Store) {key other : String}

@[simp]
theorem note?_setNote_self (key value : String) : (s.setNote key value).note? key = some value := by
  rw [note?, setNote, List.lookup_cons_self]

theorem note?_setNote_of_ne (value : String) (h : other ≠ key) : (s.setNote key value).note? other = s.note? other := by
  rw [note?, setNote, List.lookup_cons, beq_false_of_ne h]
  exact lookup_filter_of_ne h s.notes

@[simp]
theorem note?_dropNote_self (key : String) : (s.dropNote key).note? key = none := lookup_filter_self key s.notes

theorem note?_dropNote_of_ne (h : other ≠ key) : (s.dropNote key).note? other = s.note? other :=
  lookup_filter_of_ne h s.notes

end Store

def IndexReport.changed (report : IndexReport) : Nat := report.indexed + report.removed

namespace Indexing

open Projection

/-! ## The end of a run -/

/-- The path of a schema file as it is shown. -/
def shownPath (path : String) : String := String.ofList (path.toList.map fun c => if c = '\\' then '/' else c)

/-- The graph after the unit of a schema. -/
def schemaGraph (d : Desk) (s : Schema) : Graph :=
  (unit d.store.catalog Schema.origin d.store.graph d.cache (d.store.graph.bySource .fromSchema)
    (schemaStatements s fun c => (d.store.graph.nodeId? .classDecl c).isSome)).graph

def withoutSchema (d : Desk) : Store :=
  ({ d.store with schema := {}, graph := schemaGraph d {} }.dropNote Store.schemaFingerprint).dropNote Store.schemaError

def withSchema (d : Desk) (print : String) (s : Schema) : Store :=
  ({ d.store with schema := s.stored, graph := schemaGraph d s }.setNote Store.schemaFingerprint print).dropNote
    Store.schemaError

/-- What looking at the schema file does to an index, and what is told of it. -/
inductive Refreshed (t : Tree) (path : String) (force : Bool) (d : Desk) : Store → SchemaSummary → Prop
  | absent (gone : t.file? path = none) (never : d.store.note? Store.schemaFingerprint = none) :
      Refreshed t path force d (d.store.dropNote Store.schemaError) { path := shownPath path, missing := true }
  | removed (gone : t.file? path = none) (print : String) (stored : d.store.note? Store.schemaFingerprint = some print) :
      Refreshed t path force d (withoutSchema d) { path := shownPath path, missing := true }
  | unchanged (file : SourceFile) (found : t.file? path = some file) (lazy : force = false)
      (stored : d.store.note? Store.schemaFingerprint = some (fingerprint file.bytes)) :
      Refreshed t path force d d.store (.ofSchema (shownPath path) d.store.schema)
  | refused (file : SourceFile) (found : t.file? path = some file)
      (due : force = true ∨ d.store.note? Store.schemaFingerprint ≠ some (fingerprint file.bytes)) (e : Error)
      (refusal : schemaRefusal? (shownPath path) (Schema.ofSource file.text) = some e) :
      Refreshed t path force d (d.store.setNote Store.schemaError e.message) { path := shownPath path, error := some e }
  | rebuilt (file : SourceFile) (found : t.file? path = some file)
      (due : force = true ∨ d.store.note? Store.schemaFingerprint ≠ some (fingerprint file.bytes))
      (accepted : schemaRefusal? (shownPath path) (Schema.ofSource file.text) = none) :
      Refreshed t path force d (withSchema d (fingerprint file.bytes) (Schema.ofSource file.text))
        { SchemaSummary.ofSchema (shownPath path) (Schema.ofSource file.text) with
          rebuilt := true, warnings := (Schema.ofSource file.text).warnings }

section

variable {d : Desk}

theorem exists_settle_eq (hd : d.Sound) (next : Graph → Store) (s : Schema) :
    ∃ d' stats, d.settle next (projectSchema d.store.catalog d.store.graph d.cache s) = (d', .ok stats) ∧
      d'.store = next (schemaGraph d s) := by
  have hrun := run_eq hd.session d.store.catalog (.projectSchema s)
  rw [show projectSchema d.store.catalog d.store.graph d.cache s = _ from hrun]
  exact ⟨_, _, rfl, rfl⟩

theorem refreshed_dropSchema (hd : d.Sound) {t : Tree} {path : String} (force : Bool) (hgone : t.file? path = none) :
    Refreshed t path force d (dropSchema d { path := shownPath path, missing := true }).1.store
      (dropSchema d { path := shownPath path, missing := true }).2 := by
  unfold dropSchema
  split
  · next hnever => exact .absent hgone hnever
  · next print hstored =>
      obtain ⟨d', stats, hsettle, hstore⟩ := exists_settle_eq hd
        (fun graph => ({ d.store with schema := {}, graph := graph }.dropNote Store.schemaFingerprint).dropNote
          Store.schemaError) {}
      rw [show removeSchema d = _ from hsettle]
      dsimp only
      rw [hstore]
      exact .removed hgone print hstored

theorem refreshed_rebuildSchema (hd : d.Sound) {t : Tree} {path : String} (force : Bool) {file : SourceFile}
    (hfound : t.file? path = some file) :
    Refreshed t path force d (rebuildSchema d (shownPath path) file force).1.store
      (rebuildSchema d (shownPath path) file force).2 := by
  unfold rebuildSchema
  dsimp only
  split
  · next hfast =>
      simp only [Bool.and_eq_true, Bool.not_eq_true', decide_eq_true_eq] at hfast
      exact .unchanged file hfound hfast.1 hfast.2
  · next hdue =>
      have hdue' : force = true ∨ d.store.note? Store.schemaFingerprint ≠ some (fingerprint file.bytes) := by
        simp only [Bool.and_eq_true, Bool.not_eq_true', decide_eq_true_eq, not_and_or, Bool.not_eq_false] at hdue
        exact hdue
      split
      · next e hrefusal => exact .refused file hfound hdue' e hrefusal
      · next haccepted =>
          obtain ⟨d', stats, hsettle, hstore⟩ := exists_settle_eq hd
            (fun graph => ({ d.store with schema := (Schema.ofSource file.text).stored, graph := graph }.setNote
              Store.schemaFingerprint (fingerprint file.bytes)).dropNote Store.schemaError) (Schema.ofSource file.text)
          rw [show commitSchema d (fingerprint file.bytes) (Schema.ofSource file.text) = _ from hsettle]
          dsimp only
          rw [hstore]
          exact .rebuilt file hfound hdue' haccepted

theorem refreshed_refreshSchema (hd : d.Sound) (t : Tree) (path : String) (force : Bool) :
    Refreshed t path force d (refreshSchema t d path force).1.store (refreshSchema t d path force).2 := by
  unfold refreshSchema
  dsimp only
  split
  · next hgone => exact refreshed_dropSchema hd force hgone
  · next file hfound => exact refreshed_rebuildSchema hd force hfound

end

/-! ## The files -/

/-- What the files of a run leave behind before the schema is looked at, where `changed` counts those that were indexed
or removed. -/
structure Leaves (s : Store) (d : Desk) (changed : Nat) : Prop where
  sound : d.Sound
  notes : d.store.notes = s.notes
  schema : d.store.schema = s.schema
  kept : ∀ P : Store → Prop, Kept P → P s → P d.store
  idle : changed = 0 → d.store = s

/-- A run that is still with the files. -/
structure Works (s : Store) (r : Run) : Prop where
  leaves : Leaves s r.desk r.report.changed
  untold : r.report.schema = none

section

variable {s : Store} {r : Run}

theorem commitExtracted_ok (hr : r.desk.Sound) (now : Int) (file : PendingFile) (o : Outline) :
    commitExtracted now r file (.ok o) =
      { r with
        desk := (commitFile now r.desk file o).1
        report := { r.report with indexed := r.report.indexed + 1 } }.tell (.fileDone file.path true) := by
  obtain ⟨stats, hstats⟩ : ∃ stats, (commitFile now r.desk file o).2 = .ok stats := by
    obtain ⟨c, hreplace, _⟩ := commit_catalog hr {
      path := file.path, fingerprint := file.fingerprint, category := categoryOf file.path o
      lineCount := (completed file o).lineCount.getD 0, modified := file.modified, indexedAt := now }
      (completed file o).declarations
    dsimp only at hreplace
    have hrun := run_eq hr.session c (fileChange file o)
    rw [commitFile]
    simp only [hreplace]
    rw [show projectFile c r.desk.store.graph r.desk.cache file.path _ (completed file o) = _ from hrun]
    exact ⟨_, rfl⟩
  unfold commitExtracted
  dsimp only
  rw [hstats]

theorem removeGone_eq (hr : r.desk.Sound) (path : String) :
    removeGone r path =
      { r with
        desk := (removeFile r.desk path).1
        report := { r.report with removed := r.report.removed + 1 } } := by
  obtain ⟨d', stats, hremove⟩ : ∃ d' stats, removeFile r.desk path = (d', .ok stats) := by
    have hrun := run_eq hr.session (r.desk.store.catalog.removeFile path).1 (.retract path)
    rw [removeFile]
    dsimp only
    rw [show retractFile _ r.desk.store.graph r.desk.cache path = _ from hrun]
    exact ⟨_, _, rfl⟩
  rw [removeGone, hremove]

theorem Works.commitExtracted (h : Works s r) (now : Int) (file : PendingFile) (extracted : Outcome Outline) :
    Works s (commitExtracted now r file extracted) := by
  have hsound := sound_commitExtracted h.leaves.sound now file extracted
  have hkept : ∀ P : Store → Prop, Kept P → P s → P (Indexing.commitExtracted now r file extracted).desk.store :=
    fun P hP hs => hP.commitExtracted h.leaves.sound (h.leaves.kept P hP hs) now file extracted
  cases extracted with
  | error e => exact ⟨⟨hsound, h.leaves.notes, h.leaves.schema, hkept, h.leaves.idle⟩, h.untold⟩
  | ok o =>
      obtain ⟨c, hafter, _⟩ := commitFile_eq h.leaves.sound now file o
      rw [commitExtracted_ok h.leaves.sound, hafter] at hsound hkept ⊢
      refine ⟨⟨hsound, h.leaves.notes, h.leaves.schema, hkept, ?_⟩, h.untold⟩
      intro hnone
      dsimp only [Run.tell, IndexReport.changed] at hnone
      omega

theorem Works.commitAll (h : Works s r) (now : Int) (extracted : List (PendingFile × Outcome Outline)) :
    Works s (commitAll now r extracted) := by
  induction extracted generalizing r with
  | nil => exact h
  | cons x rest ih => exact ih (h.commitExtracted now x.1 x.2)

theorem Works.removeGone (h : Works s r) (path : String) : Works s (removeGone r path) := by
  have hsound := sound_removeGone h.leaves.sound path
  have hkept : ∀ P : Store → Prop, Kept P → P s → P (Indexing.removeGone r path).desk.store :=
    fun P hP hs => hP.removeGone h.leaves.sound (h.leaves.kept P hP hs) path
  have hsettle := Desk.settle_run h.leaves.sound.session
    (fun graph => { r.desk.store with catalog := (r.desk.store.catalog.removeFile path).1, graph := graph })
    (r.desk.store.catalog.removeFile path).1 (.retract path)
  rw [removeGone_eq h.leaves.sound, show (removeFile r.desk path).1 = _ from hsettle] at hsound hkept ⊢
  refine ⟨⟨hsound, h.leaves.notes, h.leaves.schema, hkept, ?_⟩, h.untold⟩
  intro hnone
  dsimp only [IndexReport.changed] at hnone
  omega

theorem Works.removeAll (h : Works s r) (gone : List String) : Works s (gone.foldl Indexing.removeGone r) := by
  induction gone generalizing r with
  | nil => exact h
  | cons path rest ih => exact ih (h.removeGone path)

end

/-! ## Whole runs -/

namespace Request

def onTree : Request → Tree
  | .tree t _ _ _ => t
  | .files t _ _ _ => t

def options : Request → IndexOptions
  | .tree _ options _ _ => options
  | .files _ options _ _ => options

def now : Request → Int
  | .tree _ _ now _ => now
  | .files _ _ now _ => now

/-- Whether a run starts from an empty index. -/
def clears : Request → Bool
  | .tree _ _ _ mode => mode = .full
  | .files _ _ _ _ => false

def opened (s : Store) (q : Request) : Store := if q.clears then s.clear else s

/-- The run itself, if its exclusions can be read. -/
def outcome (s : Store) : Request → Outcome Run
  | .tree t options now mode => (run t options now mode s).2
  | .files t options now paths => .ok (indexPaths t options now paths s)

/-- The report of a run. One whose exclusions cannot be read has none. -/
def report? (s : Store) (q : Request) : Option IndexReport :=
  match q.outcome s with
  | .ok r => some r.report
  | .error _ => none

/-- What a run tells of the schema, if it looks at it. -/
def told (s : Store) (q : Request) : Option SchemaSummary := (q.report? s).bind (·.schema)

def changed (s : Store) (q : Request) : Nat := ((q.report? s).map IndexReport.changed).getD 0

end Request

/-- What a run does to an index, and what it tells of the schema: nothing but starting, if its exclusions cannot be
read; or the files leave a desk, and then the schema is looked at, if one is configured. -/
inductive Performed (q : Request) (s : Store) : Store → Option SchemaSummary → Prop
  | unstarted (idle : q.changed s = 0) : Performed q s (q.opened s) none
  | unconfigured (d : Desk) (left : Leaves (q.opened s) d (q.changed s)) (bare : q.options.schema = none) :
      Performed q s (d.store.setNote Store.lastRun (toString q.now)) none
  | refreshed (d : Desk) (left : Leaves (q.opened s) d (q.changed s)) (path : String)
      (configured : q.options.schema = some path) (after : Store) (summary : SchemaSummary)
      (step : Refreshed q.onTree path (q.clears || 0 < q.changed s) d after summary) :
      Performed q s (after.setNote Store.lastRun (toString q.now)) (some summary)

theorem schema_readFiles (t : Tree) (known : String → Option String) (force : Bool) (paths : List String)
    (report : IndexReport) : (readFiles t known force paths report).2.schema = report.schema := by
  induction paths generalizing report with
  | nil => rfl
  | cons path rest ih =>
      unfold readFiles
      dsimp only
      split
      · exact ih _
      · exact ih _
      · exact ih _

theorem schema_planPath {t : Tree} {c : Catalog} {plan : Plan} (h : plan.report.schema = none) (path : String) :
    (planPath t c plan path).report.schema = none := by
  unfold planPath
  dsimp only
  split
  · exact h
  · split
    · exact h
    · split
      · exact h
      · exact h

theorem schema_planAll {t : Tree} {c : Catalog} {plan : Plan} (h : plan.report.schema = none) (paths : List String) :
    (paths.foldl (planPath t c) plan).report.schema = none := by
  induction paths generalizing plan with
  | nil => exact h
  | cons path rest ih => exact ih (schema_planPath h path)

theorem Standing.opened {s : Store} (hs : Standing s) (q : Request) : Standing (q.opened s) := by
  unfold Request.opened
  split
  · exact standing_clear s
  · exact hs

theorem works_execute {s : Store} (hs : Standing s) (t : Tree) (options : IndexOptions) (now : Int) (force full : Bool)
    (plan : Plan) (hplan : plan.report.schema = none) :
    ∃ r, Works s r ∧ execute t options now force full s plan = finish t options now full r := by
  refine ⟨_, Works.removeAll (Works.commitAll ⟨⟨?_, ?_, ?_, ?_, ?_⟩, ?_⟩ now _) plan.gone, rfl⟩
  · exact hs
  · rfl
  · rfl
  · exact fun _ _ hP => hP
  · exact fun _ => rfl
  · exact (schema_readFiles _ _ _ _ _).trans hplan

def treePlan (s : Store) (mode : RunMode) (files : List String) : Plan :=
  { targets := files
    gone := sortedPaths ((s.catalog.files.map (·.path)).filter fun path => !files.contains path)
    report := { mode := mode } }

theorem run_of_sources {t : Tree} {options : IndexOptions} {files : List String}
    (h : t.sources options.extensions options.exclude = .ok files) (now : Int) (mode : RunMode) (s : Store) :
    run t options now mode s =
      ((execute t options now false (mode = .full) (if mode = .full then s.clear else s)
          (treePlan (if mode = .full then s.clear else s) mode files)).desk.store,
        .ok (execute t options now false (mode = .full) (if mode = .full then s.clear else s)
          (treePlan (if mode = .full then s.clear else s) mode files))) := by
  rw [run]
  dsimp only
  rw [h]
  rfl

theorem run_of_error {t : Tree} {options : IndexOptions} {e : Error}
    (h : t.sources options.extensions options.exclude = .error e) (now : Int) (mode : RunMode) (s : Store) :
    run t options now mode s = (if mode = .full then s.clear else s, .error e) := by
  rw [run]
  dsimp only
  rw [h]

/-- A request leads to a run that works on the files and then finishes, or its exclusions cannot be read. -/
theorem outcome_cases {s : Store} (hs : Standing s) (q : Request) :
    (∃ r, Works (q.opened s) r ∧ q.outcome s = .ok (finish q.onTree q.options q.now q.clears r) ∧
      q.serve s = (finish q.onTree q.options q.now q.clears r).desk.store) ∨
    ∃ e, q.outcome s = .error e ∧ q.serve s = q.opened s := by
  cases q with
  | tree t options now mode =>
      have hopened : (Request.tree t options now mode).opened s = if mode = .full then s.clear else s := by
        simp [Request.opened, Request.clears]
      have hstanding := hs.opened (.tree t options now mode)
      rw [hopened] at hstanding ⊢
      cases hsources : t.sources options.extensions options.exclude with
      | error e =>
          have hrun := run_of_error hsources now mode s
          exact Or.inr ⟨e, congrArg Prod.snd hrun, congrArg Prod.fst hrun⟩
      | ok files =>
          obtain ⟨r, hworks, hexecute⟩ :=
            works_execute hstanding t options now false (mode = .full) (treePlan _ mode files) rfl
          have hrun := run_of_sources hsources now mode s
          rw [hexecute] at hrun
          exact Or.inl ⟨r, hworks, congrArg Prod.snd hrun, congrArg Prod.fst hrun⟩
  | files t options now paths =>
      let plan := paths.foldl (planPath t s.catalog) { report := { mode := .incremental } }
      obtain ⟨r, hworks, hexecute⟩ := works_execute hs t options now true false
        ⟨sortedPaths plan.targets, sortedPaths plan.gone, plan.report⟩ (schema_planAll rfl paths)
      refine Or.inl ⟨r, hworks, ?_, ?_⟩
      · exact congrArg Except.ok hexecute
      · exact congrArg (fun r : Run => r.desk.store) hexecute

/-- The end of a run adds to the report what it tells of the schema, and what the index holds. -/
theorem report_finish (t : Tree) (options : IndexOptions) (now : Int) (full : Bool) (r : Run) :
    ∃ summary symbols nodes edges, (finish t options now full r).report =
      { r.report with
        schema := summary, symbolsByKind := symbols, nodesByKind := nodes, edgesByKind := edges } := by
  unfold finish
  dsimp only [Run.tell]
  cases options.schema <;> exact ⟨_, _, _, _, rfl⟩

theorem performed_serve {s : Store} (hs : Standing s) (q : Request) : Performed q s (q.serve s) (q.told s) := by
  rcases outcome_cases hs q with ⟨r, hworks, hout, hserve⟩ | ⟨e, hout, hserve⟩
  · have hreport : q.report? s = some (finish q.onTree q.options q.now q.clears r).report := by
      rw [Request.report?, hout]
    have hchanged : q.changed s = r.report.changed := by
      obtain ⟨_, _, _, _, hfinish⟩ := report_finish q.onTree q.options q.now q.clears r
      rw [Request.changed, hreport, hfinish]
      rfl
    have hleaves := hworks.leaves
    rw [← hchanged] at hleaves
    rw [hserve, Request.told, hreport, Option.bind_some]
    unfold finish
    dsimp only [Run.tell]
    cases hschema : q.options.schema with
    | none =>
        dsimp only
        rw [hworks.untold]
        exact .unconfigured r.desk hleaves hschema
    | some path =>
        have hstep := refreshed_refreshSchema hleaves.sound q.onTree path (q.clears || 0 < q.changed s)
        rw [hchanged] at hstep
        exact .refreshed r.desk hleaves path hschema _ _ (hchanged ▸ hstep)
  · have hreport : q.report? s = none := by rw [Request.report?, hout]
    rw [hserve, Request.told, hreport, Option.bind_none]
    exact .unstarted (by rw [Request.changed, hreport]; rfl)

theorem served_append (requests : List Request) (q : Request) :
    served (requests ++ [q]) = q.serve (served requests) := by
  rw [served, List.foldl_append]
  rfl

/-- Something that one run raised and every later run kept, where both depend on the index that the run starts from. -/
inductive Outstanding (raises keeps : Store → Request → Prop) : List Request → Prop
  | raised {requests : List Request} {q : Request} (last : raises (served requests) q) :
      Outstanding raises keeps (requests ++ [q])
  | kept {requests : List Request} {q : Request} (before : Outstanding raises keeps requests)
      (last : keeps (served requests) q) : Outstanding raises keeps (requests ++ [q])

section

variable {raises keeps : Store → Request → Prop}

theorem not_outstanding_nil : ¬ Outstanding raises keeps [] := by
  intro h
  generalize hl : ([] : List Request) = l at h
  cases h <;> exact absurd hl (by simp)

theorem outstanding_append {requests : List Request} {q : Request} :
    Outstanding raises keeps (requests ++ [q]) ↔
      raises (served requests) q ∨ (Outstanding raises keeps requests ∧ keeps (served requests) q) := by
  constructor
  · intro h
    generalize hl : requests ++ [q] = l at h
    cases h with
    | raised last =>
        obtain ⟨rfl, hq⟩ := List.append_inj' hl rfl
        rw [List.singleton_inj] at hq
        exact Or.inl (hq ▸ last)
    | kept before last =>
        obtain ⟨rfl, hq⟩ := List.append_inj' hl rfl
        rw [List.singleton_inj] at hq
        exact Or.inr ⟨before, hq ▸ last⟩
  · rintro (last | ⟨before, last⟩)
    · exact .raised last
    · exact .kept before last

end

end Indexing

end CodeAtlas
