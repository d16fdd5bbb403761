import CodeAtlas.Proofs.Indexing.Backing
/-!
# A run after a run

After a run without failures the catalog has every file of the tree as it is there, and no others (`UpToDate`), and the
notes about the schema are those that its file calls for (`SchemaSettled`). So an incremental run over the same tree reads
no file again and removes none, and looking at the schema changes nothing: the index is left as it was but for the time of
the run (`run_again`).
-/

namespace CodeAtlas.Indexing

open Projection

/-! ## The catalog -/

/-- The catalog has a file as it is in the tree. -/
def Current (t : Tree) (c : Catalog) (path : String) : Prop :=
  ∃ f, t.file? path = some f ∧ ∃ record ∈ c.files, record.path = path ∧ record.fingerprint = fingerprint f.bytes

def FromTree (t : Tree) (file : PendingFile) : Prop :=
  ∃ f, t.file? file.path = some f ∧ file.fingerprint = fingerprint f.bytes

theorem fingerprint?_eq_some_iff {c : Catalog} (hc : c.WellFormed) {path print : String} :
    c.fingerprint? path = some print ↔ ∃ record ∈ c.files, record.path = path ∧ record.fingerprint = print := by
  rw [Catalog.fingerprint?, Option.map_eq_some_iff]
  constructor
  · intro ⟨record, hrecord, hprint⟩
    obtain ⟨hmem, hpath⟩ := Catalog.file?_eq_some hrecord
    exact ⟨record, hmem, hpath, hprint⟩
  · intro ⟨record, hmem, hpath, hprint⟩
    cases hfile : c.file? path with
    | none => exact absurd ⟨record, hmem, hpath⟩ (Catalog.file?_eq_none hfile)
    | some found =>
        obtain ⟨hfound, hfoundPath⟩ := Catalog.file?_eq_some hfile
        refine ⟨found, rfl, ?_⟩
        rw [hc.file_eq_of_path hfound hmem (hfoundPath.trans hpath.symm), hprint]

theorem files_commitFile {d : Desk} (hd : d.Sound) (now : Int) (file : PendingFile) (o : Outline) :
    ∃ e : FileEntry, e.path = file.path ∧ e.fingerprint = file.fingerprint ∧
      (commitFile now d file o).1.store.catalog.files = (d.store.catalog.upsertFile e).1.files := by
  let e : FileEntry := {
    path := file.path, fingerprint := file.fingerprint, category := categoryOf file.path o
    lineCount := (completed file o).lineCount.getD 0, modified := file.modified, indexedAt := now }
  have hc := hd.catalog.upsertFile e
  have hf : e.stored (d.store.catalog.upsertFile e).2 ∈ (d.store.catalog.upsertFile e).1.files :=
    (Catalog.mem_upsertFile hd.catalog e _).2 (Or.inl rfl)
  have hreplace := Catalog.replaceSymbols_eq hc hf ((completed file o).declarations.map (symbolOf file.path))
  refine ⟨e, rfl, rfl, ?_⟩
  have hsettle : ∀ c, (d.settle (fun graph => { d.store with catalog := c, graph := graph })
      ((fileChange file o).run c ⟨d.store.graph, d.cache⟩)).1.store.catalog = c := by
    intro c
    rw [Desk.settle_run hd.session]
    rfl
  rw [commitFile]
  dsimp only
  rw [show (d.store.catalog.upsertFile e).1.replaceSymbols (d.store.catalog.upsertFile e).2 _ = _ from hreplace]
  refine (congrArg Catalog.files (hsettle _)).trans ?_
  rfl

section

variable {t : Tree} {r : Run} {q : String}

theorem current_commitFile {d : Desk} (hd : d.Sound) (now : Int) {file : PendingFile} (hfile : FromTree t file)
    (o : Outline) (h : Current t d.store.catalog q ∨ q = file.path) :
    Current t (commitFile now d file o).1.store.catalog q := by
  obtain ⟨e, hpath, hprint, hfiles⟩ := files_commitFile hd now file o
  by_cases hq : q = file.path
  · obtain ⟨f, hf, hfprint⟩ := hfile
    refine ⟨f, by rw [hq]; exact hf, e.stored (d.store.catalog.upsertFile e).2, ?_, ?_, ?_⟩
    · rw [hfiles]
      exact (Catalog.mem_upsertFile hd.catalog e _).2 (Or.inl rfl)
    · exact hpath.trans hq.symm
    · exact hprint.trans hfprint
  · obtain ⟨f, hf, record, hmem, hrecord, hrecordPrint⟩ := h.resolve_right hq
    refine ⟨f, hf, record, ?_, hrecord, hrecordPrint⟩
    rw [hfiles]
    exact (Catalog.mem_upsertFile hd.catalog e _).2 (Or.inr ⟨hmem, by rw [hrecord, hpath]; exact hq⟩)

theorem catalog_removeFile {d : Desk} (hd : d.Sound) (path : String) :
    (removeFile d path).1.store.catalog = (d.store.catalog.removeFile path).1 := by
  have hsettle := Desk.settle_run hd.session
    (fun graph => { d.store with catalog := (d.store.catalog.removeFile path).1, graph := graph })
    (d.store.catalog.removeFile path).1 (.retract path)
  rw [show (removeFile d path).1 = _ from hsettle]
  rfl

theorem current_removeFile {c : Catalog} {path : String} (h : Current t c q) (hne : q ≠ path) :
    Current t (c.removeFile path).1 q := by
  obtain ⟨f, hf, record, hmem, hrecord, hprint⟩ := h
  refine ⟨f, hf, record, ?_, hrecord, hprint⟩
  unfold Catalog.removeFile
  split
  · exact hmem
  · exact List.mem_filter.2 ⟨hmem, by simpa [hrecord] using hne⟩

end

/-! ## Reading the files -/

def Reading.file? : Reading → Option PendingFile
  | .pending file => some file
  | _ => none

theorem files_readFiles (t : Tree) (known : String → Option String) (force : Bool) (paths : List String)
    (report : IndexReport) :
    (readFiles t known force paths report).1 = paths.filterMap fun path => (read t known force path).file? := by
  induction paths generalizing report with
  | nil => rfl
  | cons path rest ih =>
      rw [readFiles, List.filterMap_cons]
      cases read t known force path with
      | unreadable => exact ih _
      | unchanged => exact ih _
      | pending file => exact congrArg (file :: ·) (ih _)

theorem failures_readFiles (t : Tree) (known : String → Option String) (force : Bool) (paths : List String)
    (report : IndexReport) :
    (readFiles t known force paths report).2.failures =
      report.failures ++ (paths.filter fun path => read t known force path = .unreadable).map (⟨·, .unreadable⟩) := by
  induction paths generalizing report with
  | nil => exact (List.append_nil _).symm
  | cons path rest ih =>
      rw [readFiles, List.filter_cons]
      cases read t known force path with
      | unreadable =>
          refine (ih _).trans ?_
          rw [if_pos (decide_eq_true rfl), List.map_cons]
          exact List.append_assoc _ _ _
      | unchanged =>
          rw [if_neg (by simp)]
          exact ih _
      | pending file =>
          rw [if_neg (by simp)]
          exact ih _

section

variable {t : Tree} {c : Catalog} {force : Bool} {path : String}

theorem fromTree_of_read {file : PendingFile} (h : read t c.fingerprint? force path = .pending file) :
    FromTree t file ∧ file.path = path := by
  unfold read at h
  split at h
  · exact absurd h (by simp)
  · next f hf =>
      dsimp only at h
      split at h
      · exact absurd h (by simp)
      · rw [Reading.pending.injEq] at h
        rw [← h]
        exact ⟨⟨f, hf, rfl⟩, rfl⟩

theorem read_eq_unchanged_iff (hc : c.WellFormed) :
    read t c.fingerprint? force path = .unchanged ↔ force = false ∧ Current t c path := by
  unfold read Current
  cases t.file? path with
  | none => simp
  | some f => simp [fingerprint?_eq_some_iff hc, pendingFile]

end

/-- Files to be outlined are files of the tree; where none failed, the others are current. -/
theorem readFiles_spec {t : Tree} {c : Catalog} (hc : c.WellFormed) (force : Bool) (paths : List String)
    (report : IndexReport) :
    (∀ file ∈ (readFiles t c.fingerprint? force paths report).1, FromTree t file ∧ file.path ∈ paths) ∧
    ((readFiles t c.fingerprint? force paths report).2.failures = [] → ∀ p ∈ paths,
      Current t c p ∨ ∃ file ∈ (readFiles t c.fingerprint? force paths report).1, p = file.path) := by
  rw [files_readFiles, failures_readFiles]
  constructor
  · intro file hfile
    obtain ⟨path, hpath, hread⟩ := List.mem_filterMap.1 hfile
    cases hreading : read t c.fingerprint? force path with
    | unreadable => exact absurd (hreading ▸ hread) (by simp [Reading.file?])
    | unchanged => exact absurd (hreading ▸ hread) (by simp [Reading.file?])
    | pending found =>
        rw [hreading, Reading.file?, Option.some.injEq] at hread
        obtain ⟨hfrom, hsame⟩ := fromTree_of_read hreading
        rw [← hread, hsame]
        exact ⟨hfrom, hpath⟩
  · intro hnone p hp
    have hreadable := (List.append_eq_nil_iff.1 hnone).2
    rw [List.map_eq_nil_iff, List.filter_eq_nil_iff] at hreadable
    cases hreading : read t c.fingerprint? force p with
    | unreadable => exact absurd (decide_eq_true hreading) (hreadable p hp)
    | unchanged => exact Or.inl ((read_eq_unchanged_iff hc).1 hreading).2
    | pending file =>
        refine Or.inr ⟨file, List.mem_filterMap.2 ⟨p, hp, ?_⟩, (fromTree_of_read hreading).2.symm⟩
        rw [hreading, Reading.file?]

/-! ## A run without failures -/

/-- The catalog has the files of a list as they are in the tree, and no others. -/
structure UpToDate (t : Tree) (paths : List String) (c : Catalog) : Prop where
  current : ∀ p ∈ paths, Current t c p
  indexed : ∀ q, c.Indexed q → q ∈ paths

section

variable {t : Tree} {r : Run} {now : Int}

theorem commitExtracted_spec (hr : r.desk.Sound) {file : PendingFile} (hfrom : FromTree t file)
    {extracted : Outcome Outline} (hnone : (commitExtracted now r file extracted).report.failures = []) :
    r.report.failures = [] ∧
    (∀ q, Current t r.desk.store.catalog q ∨ q = file.path →
      Current t (commitExtracted now r file extracted).desk.store.catalog q) ∧
    ∀ q, (commitExtracted now r file extracted).desk.store.catalog.Indexed q →
      r.desk.store.catalog.Indexed q ∨ q = file.path := by
  cases extracted with
  | error e => exact absurd hnone (by simp [commitExtracted, Run.fail, Run.tell, IndexReport.fail])
  | ok o =>
      obtain ⟨c, hafter, _, hadded, _⟩ := commitFile_eq hr now file o
      rw [commitExtracted_ok hr] at hnone ⊢
      refine ⟨hnone, fun q h => current_commitFile hr now hfrom o h, ?_⟩
      intro q h
      change (commitFile now r.desk file o).1.store.catalog.Indexed q at h
      rw [hafter] at h
      exact (hadded q).1 h

theorem commitAll_spec {extracted : List (PendingFile × Outcome Outline)} (hr : r.desk.Sound)
    (hfrom : ∀ x ∈ extracted, FromTree t x.1) (hnone : (commitAll now r extracted).report.failures = []) :
    r.report.failures = [] ∧
    (∀ q, Current t r.desk.store.catalog q ∨ (∃ x ∈ extracted, q = x.1.path) →
      Current t (commitAll now r extracted).desk.store.catalog q) ∧
    ∀ q, (commitAll now r extracted).desk.store.catalog.Indexed q →
      r.desk.store.catalog.Indexed q ∨ ∃ x ∈ extracted, q = x.1.path := by
  induction extracted generalizing r with
  | nil =>
      refine ⟨hnone, ?_, fun _ h => Or.inl h⟩
      intro q h
      exact h.resolve_right fun ⟨_, hx, _⟩ => absurd hx List.not_mem_nil
  | cons x rest ih =>
      -- Failures are only added to, so there was none after the first file either.
      obtain ⟨hfailures, hcurrent, hindexed⟩ := ih (sound_commitExtracted hr now x.1 x.2)
        (fun y hy => hfrom y (List.mem_cons_of_mem _ hy)) hnone
      obtain ⟨hfirst, hkeeps, hadds⟩ := commitExtracted_spec hr (hfrom x List.mem_cons_self) hfailures
      refine ⟨hfirst, ?_, ?_⟩
      · intro q h
        refine hcurrent q ?_
        rcases h with h | ⟨y, hy, hpath⟩
        · exact Or.inl (hkeeps q (Or.inl h))
        · rcases List.mem_cons.1 hy with heq | hy
          · exact Or.inl (hkeeps q (Or.inr (heq ▸ hpath)))
          · exact Or.inr ⟨y, hy, hpath⟩
      · intro q h
        rcases hindexed q h with hbefore | ⟨y, hy, hpath⟩
        · rcases hadds q hbefore with hold | hnew
          · exact Or.inl hold
          · exact Or.inr ⟨x, List.mem_cons_self, hnew⟩
        · exact Or.inr ⟨y, List.mem_cons_of_mem _ hy, hpath⟩

theorem removeAll_spec (hr : r.desk.Sound) (gone : List String) :
    (gone.foldl removeGone r).report.failures = r.report.failures ∧
    (∀ q, Current t r.desk.store.catalog q → q ∉ gone →
      Current t (gone.foldl removeGone r).desk.store.catalog q) ∧
    ∀ q, (gone.foldl removeGone r).desk.store.catalog.Indexed q → r.desk.store.catalog.Indexed q ∧ q ∉ gone := by
  induction gone generalizing r with
  | nil => exact ⟨rfl, fun _ h _ => h, fun _ h => ⟨h, List.not_mem_nil⟩⟩
  | cons path rest ih =>
      obtain ⟨hfailures, hcurrent, hindexed⟩ := ih (sound_removeGone hr path)
      rw [removeGone_eq hr] at hfailures hcurrent hindexed
      dsimp only at hcurrent hindexed
      rw [catalog_removeFile hr] at hcurrent hindexed
      rw [List.foldl_cons, removeGone_eq hr]
      refine ⟨hfailures, ?_, ?_⟩
      · intro q h hq
        rw [List.mem_cons, not_or] at hq
        exact hcurrent q (current_removeFile h hq.1) hq.2
      · intro q h
        obtain ⟨hbefore, hrest⟩ := hindexed q h
        obtain ⟨hold, hne⟩ := ((Catalog.removeFile_spec hr.catalog path).2.1 q).1 hbefore
        exact ⟨hold, by rw [List.mem_cons, not_or]; exact ⟨hne, hrest⟩⟩

end

/-- A run without failures leaves the catalog up to date, if what is gone is just what is not looked for. -/
theorem upToDate_execute {s : Store} (hs : Standing s) (t : Tree) (options : IndexOptions) (now : Int)
    (force full : Bool) {plan : Plan} (hgone : ∀ q, q ∈ plan.gone ↔ s.catalog.Indexed q ∧ q ∉ plan.targets)
    (hnone : (execute t options now force full s plan).report.failures = []) :
    UpToDate t plan.targets (execute t options now force full s plan).desk.store.catalog := by
  let files := (readFiles t s.catalog.fingerprint? force plan.targets plan.report).1
  let report := (readFiles t s.catalog.fingerprint? force plan.targets plan.report).2
  let start : Run := Run.tell { desk := { store := s }, report := report } (.extracting files.length)
  let extracted := files.map fun file => (file, options.extractor.extract t (inputOf t file))
  have hstart : start.desk.Sound := hs
  have hcommitted := sound_commitAll hstart now extracted
  have hremoved := sound_removeAll hcommitted plan.gone
  -- The schema is looked at after the files, and leaves the catalog alone.
  have hcatalog : (execute t options now force full s plan).desk.store.catalog =
      (plan.gone.foldl removeGone (commitAll now start extracted)).desk.store.catalog :=
    (refreshes_finish hremoved t options now full).catalog
  obtain ⟨hfailures, hkeeps, hleft⟩ := removeAll_spec (t := t) hcommitted plan.gone
  have hunfailed : (commitAll now start extracted).report.failures = [] := by
    obtain ⟨_, _, _, _, hfinish⟩ := report_finish t options now full
      (plan.gone.foldl removeGone (commitAll now start extracted))
    rw [← hfailures]
    exact (congrArg IndexReport.failures hfinish).symm.trans hnone
  obtain ⟨hread, hcurrent⟩ := readFiles_spec (t := t) hs.catalog force plan.targets plan.report
  have hfrom : ∀ x ∈ extracted, FromTree t x.1 ∧ x.1.path ∈ plan.targets := by
    intro x hx
    obtain ⟨file, hfile, heq⟩ := List.mem_map.1 hx
    rw [← heq]
    exact hread file hfile
  obtain ⟨hreport, hcommits, hadds⟩ := commitAll_spec hstart (fun x hx => (hfrom x hx).1) hunfailed
  rw [hcatalog]
  refine ⟨?_, ?_⟩
  · intro p hp
    refine hkeeps p (hcommits p ?_) fun hmem => ((hgone p).1 hmem).2 hp
    rcases hcurrent hreport p hp with hbefore | ⟨file, hfile, hpath⟩
    · exact Or.inl hbefore
    · exact Or.inr ⟨_, List.mem_map_of_mem hfile, hpath⟩
  · intro q hq
    obtain ⟨hindexed, hstays⟩ := hleft q hq
    rcases hadds q hindexed with hbefore | ⟨x, hx, hpath⟩
    · by_contra hno
      exact hstays ((hgone q).2 ⟨hbefore, hno⟩)
    · exact hpath ▸ (hfrom x hx).2

/-! ## The schema -/

/-- The notes are those that a schema file calls for: none if it is gone; or its fingerprint, or the error for which it
was refused. -/
def SchemaSettled (t : Tree) (path : String) (s : Store) : Prop :=
  match t.file? path with
  | none => s.note? Store.schemaFingerprint = none ∧ s.note? Store.schemaError = none
  | some file =>
    s.note? Store.schemaFingerprint = some (fingerprint file.bytes) ∨
      ∃ e, schemaRefusal? (shownPath path) (Schema.ofSource file.text) = some e ∧
        s.note? Store.schemaError = some e.message

/-- Two indexes that hold the same, but for the notes of some keys. -/
structure SameBut (keys : List String) (s s' : Store) : Prop where
  catalog : s'.catalog = s.catalog
  graph : s'.graph = s.graph
  schema : s'.schema = s.schema
  notes : ∀ k, k ∉ keys → s'.note? k = s.note? k

theorem SameBut.setNote {s s' : Store} (h : SameBut [] s s') (key value : String) :
    SameBut [key] s (s'.setNote key value) := by
  refine ⟨h.catalog, h.graph, h.schema, ?_⟩
  intro k hk
  rw [List.mem_singleton] at hk
  rw [Store.note?_setNote_of_ne s' value hk]
  exact h.notes k List.not_mem_nil

section

variable {t : Tree} {path : String} {force : Bool} {d : Desk} {after : Store} {summary : SchemaSummary}

theorem note?_setNote_of_some {s : Store} {key value : String} (h : s.note? key = some value) (k : String) :
    (s.setNote key value).note? k = s.note? k := by
  by_cases hk : k = key
  · rw [hk, Store.note?_setNote_self, h]
  · exact Store.note?_setNote_of_ne s value hk

theorem note?_dropNote_of_none {s : Store} {key : String} (h : s.note? key = none) (k : String) :
    (s.dropNote key).note? k = s.note? k := by
  by_cases hk : k = key
  · rw [hk, Store.note?_dropNote_self, h]
  · exact Store.note?_dropNote_of_ne s hk

theorem Refreshed.settled (h : Refreshed t path force d after summary) : SchemaSettled t path after := by
  unfold SchemaSettled
  cases h with
  | absent gone never =>
      rw [gone]
      refine ⟨?_, Store.note?_dropNote_self _ _⟩
      rw [Store.note?_dropNote_of_ne _ (by decide)]
      exact never
  | removed gone print stored =>
      rw [gone, withoutSchema]
      refine ⟨?_, Store.note?_dropNote_self _ _⟩
      rw [Store.note?_dropNote_of_ne _ (by decide), Store.note?_dropNote_self]
  | unchanged file found lazy stored =>
      rw [found]
      exact Or.inl stored
  | refused file found due e refusal =>
      rw [found]
      exact Or.inr ⟨e, refusal, Store.note?_setNote_self _ _ _⟩
  | rebuilt file found due accepted =>
      rw [found, withSchema]
      refine Or.inl ?_
      rw [Store.note?_dropNote_of_ne _ (by decide), Store.note?_setNote_self]

/-- A schema that is settled is not changed by looking at it again. -/
theorem Refreshed.unchanged_of_settled (h : Refreshed t path false d after summary)
    (hsettled : SchemaSettled t path d.store) : SameBut [] d.store after := by
  unfold SchemaSettled at hsettled
  cases h with
  | absent gone never =>
      rw [gone] at hsettled
      exact ⟨rfl, rfl, rfl, fun k _ => note?_dropNote_of_none hsettled.2 k⟩
  | removed gone print stored =>
      rw [gone] at hsettled
      exact absurd (hsettled.1.symm.trans stored) (by simp)
  | unchanged file found lazy stored => exact ⟨rfl, rfl, rfl, fun _ _ => rfl⟩
  | refused file found due e refusal =>
      rw [found] at hsettled
      rcases hsettled with hprint | ⟨e', hrefusal, hnote⟩
      · exact absurd hprint (due.resolve_left Bool.false_ne_true)
      · -- The file is refused for the reason that was noted.
        obtain rfl : e' = e := Option.some.inj (hrefusal.symm.trans refusal)
        exact ⟨rfl, rfl, rfl, fun k _ => note?_setNote_of_some hnote k⟩
  | rebuilt file found due accepted =>
      rw [found] at hsettled
      rcases hsettled with hprint | ⟨e', hrefusal, _⟩
      · exact absurd hprint (due.resolve_left Bool.false_ne_true)
      · exact absurd (hrefusal.symm.trans accepted) (by simp)

end

/-! ## Two runs -/

theorem readFiles_current {t : Tree} {c : Catalog} (hc : c.WellFormed) {paths : List String}
    (h : ∀ p ∈ paths, Current t c p) (report : IndexReport) :
    readFiles t c.fingerprint? false paths report =
      ([], { report with
        considered := report.considered + paths.length, unchanged := report.unchanged + paths.length }) := by
  induction paths generalizing report with
  | nil => rfl
  | cons path rest ih =>
      have hread := (read_eq_unchanged_iff hc).2 ⟨rfl, h path List.mem_cons_self⟩
      rw [readFiles, hread]
      dsimp only
      rw [ih fun p hp => h p (List.mem_cons_of_mem _ hp), List.length_cons]
      simp only [Nat.add_assoc, Nat.add_comm 1]

theorem mem_foldl_distinct {q : String} (paths done : List String) :
    q ∈ paths.foldl (fun done p => if done.getLast? = some p then done else done ++ [p]) done ↔ q ∈ done ∨ q ∈ paths := by
  induction paths generalizing done with
  | nil => simp
  | cons p rest ih =>
      rw [List.foldl_cons, ih, List.mem_cons]
      split
      · next hlast =>
          have hp : p ∈ done := List.mem_of_getLast? hlast
          constructor
          · exact fun h => h.imp_right Or.inr
          · rintro (hdone | rfl | hrest)
            · exact Or.inl hdone
            · exact Or.inl hp
            · exact Or.inr hrest
      · rw [List.mem_append, List.mem_singleton, or_assoc]

theorem mem_sortedPaths {paths : List String} {q : String} : q ∈ sortedPaths paths ↔ q ∈ paths := by
  rw [sortedPaths, mem_foldl_distinct]
  simp

theorem mem_gone_treePlan {s : Store} {mode : RunMode} {files : List String} {q : String} :
    q ∈ (treePlan s mode files).gone ↔ s.catalog.Indexed q ∧ q ∉ files := by
  rw [treePlan, mem_sortedPaths, List.mem_filter, List.mem_map]
  simp [Catalog.Indexed]

theorem exists_sources {t : Tree} {options : IndexOptions} {now : Int} {mode : RunMode} {s after : Store} {r : Run}
    (h : run t options now mode s = (after, .ok r)) : ∃ files, t.sources options.extensions options.exclude = .ok files := by
  cases hsources : t.sources options.extensions options.exclude with
  | ok files => exact ⟨files, rfl⟩
  | error e =>
      rw [run_of_error hsources] at h
      exact absurd (Prod.mk.inj h).2 (by simp)

theorem SchemaSettled.setNote {t : Tree} {path : String} {s : Store} (h : SchemaSettled t path s) (value : String) :
    SchemaSettled t path (s.setNote Store.lastRun value) := by
  unfold SchemaSettled at h ⊢
  rw [Store.note?_setNote_of_ne s value (by decide), Store.note?_setNote_of_ne s value (by decide)]
  exact h

section

variable {t : Tree} {options : IndexOptions} {r : Run}

theorem settled_finish (hr : r.desk.Sound) (now : Int) (full : Bool) {path : String} (h : options.schema = some path) :
    SchemaSettled t path (finish t options now full r).desk.store := by
  unfold finish
  rw [h]
  exact (refreshed_refreshSchema hr t path _).settled.setNote _

/-- The end of a run that changed no files and meets a settled schema leaves all but the time of the run. -/
theorem sameBut_finish (hr : r.desk.Sound) (hidle : r.report.changed = 0)
    (hsettled : ∀ path, options.schema = some path → SchemaSettled t path r.desk.store) (now : Int) :
    SameBut [Store.lastRun] r.desk.store (finish t options now false r).desk.store := by
  unfold finish
  dsimp only [Run.tell]
  cases hschema : options.schema with
  | none => exact SameBut.setNote ⟨rfl, rfl, rfl, fun _ _ => rfl⟩ _ _
  | some path =>
      have hforce : (false || decide (0 < r.report.indexed + r.report.removed)) = false := by
        rw [show r.report.indexed + r.report.removed = 0 from hidle]
        rfl
      rw [hforce]
      exact ((refreshed_refreshSchema hr t path false).unchanged_of_settled (hsettled path hschema)).setNote _ _

theorem execute_upToDate {s : Store} (hs : Standing s) {files : List String} (h : UpToDate t files s.catalog)
    (options : IndexOptions) (now : Int) (full : Bool) (mode : RunMode) :
    ∃ r : Run, r.desk = { store := s } ∧
      r.report = { mode := mode, considered := files.length, unchanged := files.length } ∧
      execute t options now false full s (treePlan s mode files) = finish t options now full r := by
  have hgone : (treePlan s mode files).gone = [] := by
    refine List.eq_nil_iff_forall_not_mem.2 fun q hq => ?_
    obtain ⟨hindexed, hnot⟩ := mem_gone_treePlan.1 hq
    exact hnot (h.indexed q hindexed)
  have hread := readFiles_current hs.catalog h.current { mode := mode }
  rw [Nat.zero_add] at hread
  unfold execute
  rw [show (treePlan s mode files).targets = files from rfl, show (treePlan s mode files).report = { mode := mode } from rfl,
    hread, hgone]
  exact ⟨_, rfl, rfl, rfl⟩

end

/-- After a run without failures an incremental run over the same tree, with the same options, finds every file
unchanged, indexes and removes none, and leaves the catalog with its ids, the graph with all holders of edges, the stored
schema, and all notes but the time of the run as they were. -/
theorem run_again (requests : List Request) {t : Tree} {options : IndexOptions} {now : Int} {mode : RunMode}
    {after : Store} {r : Run} (hrun : run t options now mode (served requests) = (after, .ok r))
    (hfailed : r.report.failed = 0) (later : Int) :
    ∃ after' r', run t options later .incremental after = (after', .ok r') ∧
      (r'.report.indexed = 0 ∧ r'.report.removed = 0 ∧ r'.report.failed = 0 ∧
        r'.report.unchanged = r'.report.considered) ∧
      after'.catalog = after.catalog ∧ after'.graph = after.graph ∧ after'.schema = after.schema ∧
      ∀ key, key ≠ Store.lastRun → after'.note? key = after.note? key := by
  obtain ⟨files, hfiles⟩ := exists_sources hrun
  have hopened : Standing (if mode = .full then (served requests).clear else served requests) := by
    split
    · exact standing_clear _
    · exact standing_served requests
  rw [run_of_sources hfiles] at hrun
  -- From here on it does not matter whether the first run was full.
  generalize (if mode = .full then (served requests).clear else served requests) = start at hrun hopened
  obtain ⟨hstore, hr⟩ := Prod.mk.inj hrun
  rw [Except.ok.injEq] at hr
  have hnone : r.report.failures = [] := List.length_eq_zero_iff.1 hfailed
  rw [← hr] at hnone
  have hup := upToDate_execute hopened t options now false _ (fun _ => mem_gone_treePlan) hnone
  have hstanding := standing_of_sound (sound_execute hopened t options now false (mode = .full) (treePlan start mode files))
  obtain ⟨first, hworks, hfirst⟩ :=
    works_execute hopened t options now false (mode = .full) (treePlan start mode files) rfl
  have hsettled : ∀ path, options.schema = some path → SchemaSettled t path after := by
    intro path hpath
    rw [← hstore, hfirst]
    exact settled_finish hworks.leaves.sound now _ hpath
  rw [hstore] at hup hstanding
  obtain ⟨second, hdesk, hreport, hexecute⟩ := execute_upToDate hstanding hup options later false .incremental
  have hsound : second.desk.Sound := by
    rw [hdesk]
    exact hstanding
  have hsame : SameBut [Store.lastRun] second.desk.store (finish t options later false second).desk.store :=
    sameBut_finish hsound (by rw [hreport]; rfl) (by rw [hdesk]; exact hsettled) later
  rw [hdesk] at hsame
  obtain ⟨_, _, _, _, hcounts⟩ := report_finish t options later false second
  refine ⟨(finish t options later false second).desk.store, finish t options later false second, ?_,
    ⟨?_, ?_, ?_, ?_⟩, hsame.catalog, hsame.graph, hsame.schema, ?_⟩
  · rw [run_of_sources hfiles, if_neg (by simp)]
    exact congrArg (fun r : Run => (r.desk.store, Except.ok r)) hexecute
  · rw [hcounts, hreport]
  · rw [hcounts, hreport]
  · rw [hcounts, hreport]
    rfl
  · rw [hcounts, hreport]
  · intro key hkey
    exact hsame.notes key (by rwa [List.mem_singleton])

/-! ## A class that is added -/

def describingRuns : List Request := [.tree describedTree schemaOnly 0 .full]

set_option maxRecDepth 100000 in
/-- One run reads the class that was added, the next finds nothing to do. -/
theorem run_again_modelled :
    ∃ after r, run modelledTree schemaOnly 1 .incremental (served describingRuns) = (after, .ok r) ∧
      r.report.failed = 0 ∧ r.report.indexed = 1 ∧
      ∃ after' r', run modelledTree schemaOnly 2 .incremental after = (after', .ok r') ∧
        r'.report.indexed = 0 ∧ r'.report.unchanged = r'.report.considered ∧ after'.graph = after.graph := by
  have hcounts : (run modelledTree schemaOnly 1 .incremental (served describingRuns)).2.toOption.map
      (fun r => (r.report.failed, r.report.indexed)) = some (0, 1) := by
    decide +kernel
  rcases hrun : run modelledTree schemaOnly 1 .incremental (served describingRuns) with ⟨after, e | r⟩
  · rw [hrun] at hcounts
    exact absurd hcounts (by simp [Except.toOption])
  · rw [hrun] at hcounts
    have hpair : (r.report.failed, r.report.indexed) = (0, 1) := Option.some.inj hcounts
    have hfailed : r.report.failed = 0 := congrArg Prod.fst hpair
    obtain ⟨after', r', hagain, ⟨hindexed, _, _, hunchanged⟩, _, hgraph, _⟩ := run_again describingRuns hrun hfailed 2
    exact ⟨after, r, rfl, hfailed, congrArg Prod.snd hpair, after', r', hagain, hindexed, hunchanged, hgraph⟩

end CodeAtlas.Indexing
