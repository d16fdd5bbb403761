import CodeAtlas.Proofs.Indexing.Fixpoint
import CodeAtlas.Proofs.Tree.Path
import CodeAtlas.Query.Files
/-!
# The paths of indexed files

An indexed path was offered by some run: it is the path of a file of a tree, or a given path as it is seen from the root
(`indexed_served`). The first is made of names, and the second of names and of the steps up that were given (`Request.Spells`).
So an indexed file has the form of paths in queries, and is alone with its place, unless it was given by a path that steps up
(`normalize_path_iff`).
-/

namespace CodeAtlas

/-- The root is an absolute path, and what stands below it has names. -/
structure Tree.Proper (t : Tree) : Prop where
  root : Path.isAbsolute t.root = true
  files : ∀ file ∈ t.files, file.1 ≠ [] ∧ ∀ name ∈ file.1, Component.IsName name

namespace Indexing

/-- The tree that a run looks at. -/
def Request.seen : Request → Tree
  | .tree t _ _ _ => t
  | .files t _ _ _ => t

/-- The paths that a run may index. -/
inductive Request.Offers : Request → String → Prop where
  | found {t : Tree} {options : IndexOptions} {now : Int} {mode : RunMode} {names : List String} {file : SourceFile}
      (mem : (names, file) ∈ t.files) : Offers (.tree t options now mode) (Tree.pathOf names)
  | given {t : Tree} {options : IndexOptions} {now : Int} {paths : List String} {p q : String} (mem : p ∈ paths)
      (seen : Path.relative? t.root (Path.join t.root p) = some q) : Offers (.files t options now paths) q

section

variable {r : Run} {q : String}

theorem indexed_commitExtracted (hr : r.desk.Sound) {now : Int} {file : PendingFile} {extracted : Outcome Outline}
    (h : (commitExtracted now r file extracted).desk.store.catalog.Indexed q) :
    r.desk.store.catalog.Indexed q ∨ q = file.path := by
  cases extracted with
  | error e => exact Or.inl h
  | ok o =>
      obtain ⟨c, hafter, _, hadded, _⟩ := commitFile_eq hr now file o
      rw [commitExtracted_ok hr] at h
      change (commitFile now r.desk file o).1.store.catalog.Indexed q at h
      rw [hafter] at h
      exact (hadded q).1 h

theorem indexed_commitAll (hr : r.desk.Sound) {now : Int} {extracted : List (PendingFile × Outcome Outline)}
    (h : (commitAll now r extracted).desk.store.catalog.Indexed q) :
    r.desk.store.catalog.Indexed q ∨ q ∈ extracted.map fun x => x.1.path := by
  induction extracted generalizing r with
  | nil => exact Or.inl h
  | cons x rest ih =>
      rw [List.map_cons, List.mem_cons]
      rcases ih (sound_commitExtracted hr now x.1 x.2) h with h | h
      · exact (indexed_commitExtracted hr h).imp_right Or.inl
      · exact Or.inr (Or.inr h)

end

section

variable {s : Store} {q : String}

/-- A run indexes nothing but the files it is to read. -/
theorem indexed_execute (hs : Standing s) {t : Tree} {options : IndexOptions} {now : Int} {force full : Bool} {plan : Plan}
    (h : (execute t options now force full s plan).desk.store.catalog.Indexed q) :
    s.catalog.Indexed q ∨ q ∈ plan.targets := by
  unfold execute at h
  dsimp only at h
  generalize hstart : Run.tell _ _ = r at h
  have hdesk : r.desk = { store := s } := by rw [← hstart]; rfl
  have hr : r.desk.Sound := by rw [hdesk]; exact hs
  have hcommitted := sound_commitAll hr now ((readFiles t s.catalog.fingerprint? force plan.targets plan.report).1.map fun file =>
    (file, options.extractor.extract t (inputOf t file)))
  rw [(refreshes_finish (sound_removeAll hcommitted plan.gone) t options now full).catalog] at h
  have hkept := (removeAll_spec (t := t) hcommitted plan.gone).2.2 q h
  rcases indexed_commitAll hr hkept.1 with hbefore | hread
  · rw [hdesk] at hbefore
    exact Or.inl hbefore
  · rw [List.map_map] at hread
    exact Or.inr ((readFiles_sublist t _ force plan.targets plan.report).subset hread)

theorem mem_sources {t : Tree} {extensions exclude paths : List String} (h : t.sources extensions exclude = .ok paths)
    (hq : q ∈ paths) : ∃ names file, (names, file) ∈ t.files ∧ q = Tree.pathOf names := by
  unfold Tree.sources at h
  split at h
  · cases h
  · cases h
    obtain ⟨names, hnames, rfl⟩ := List.mem_map.1 (List.mem_mergeSort.1 hq)
    obtain ⟨⟨_, file⟩, hfile, rfl⟩ := List.mem_map.1 (List.mem_filter.1 hnames).1
    exact ⟨_, file, hfile, rfl⟩

theorem mem_targets_planPath {t : Tree} {c : Catalog} {plan : Plan} {p : String} (h : q ∈ (planPath t c plan p).targets) :
    q ∈ plan.targets ∨ Path.relative? t.root (Path.join t.root p) = some q := by
  unfold planPath at h
  dsimp only at h
  split at h
  · exact Or.inl h
  · next inner hinner =>
      split at h
      · rcases List.mem_append.1 h with h | h
        · exact Or.inl h
        · exact Or.inr (List.mem_singleton.1 h ▸ hinner)
      · split at h <;> exact Or.inl h

theorem mem_targets_foldl {t : Tree} {c : Catalog} {paths : List String} {plan : Plan}
    (h : q ∈ (paths.foldl (planPath t c) plan).targets) :
    q ∈ plan.targets ∨ ∃ p ∈ paths, Path.relative? t.root (Path.join t.root p) = some q := by
  induction paths generalizing plan with
  | nil => exact Or.inl h
  | cons p rest ih =>
      rcases ih h with h | ⟨p', hp', hseen⟩
      · exact (mem_targets_planPath h).imp_right fun hseen => ⟨p, List.mem_cons_self, hseen⟩
      · exact Or.inr ⟨p', List.mem_cons_of_mem _ hp', hseen⟩

theorem indexed_serve (hs : Standing s) {request : Request} (h : (request.serve s).catalog.Indexed q) :
    s.catalog.Indexed q ∨ request.Offers q := by
  cases request with
  | tree t options now mode =>
      have hstart : Standing (if mode = .full then s.clear else s) ∧
          ((if mode = .full then s.clear else s).catalog.Indexed q → s.catalog.Indexed q) := by
        split
        · exact ⟨standing_clear s, fun h => absurd h (Catalog.not_indexed_clear s.catalog q)⟩
        · exact ⟨hs, id⟩
      unfold Request.serve run at h
      dsimp only at h
      split at h
      · exact Or.inl (hstart.2 h)
      · next files hfiles =>
          rcases indexed_execute hstart.1 h with h | h
          · exact Or.inl (hstart.2 h)
          · obtain ⟨names, file, hmem, rfl⟩ := mem_sources hfiles h
            exact Or.inr (.found hmem)
  | files t options now paths =>
      rcases indexed_execute hs h with h | h
      · exact Or.inl h
      · rcases mem_targets_foldl (mem_sortedPaths.1 h) with h | ⟨p, hp, hseen⟩
        · exact absurd h List.not_mem_nil
        · exact Or.inr (.given hp hseen)

end

/-- Every indexed path was offered by a run. -/
theorem indexed_served {requests : List Request} {q : String} (h : (served requests).catalog.Indexed q) :
    ∃ request ∈ requests, request.Offers q := by
  induction requests using List.reverseRecOn with
  | nil =>
      obtain ⟨f, hf, -⟩ := h
      exact absurd hf List.not_mem_nil
  | append_singleton requests request ih =>
      rw [served_append] at h
      rcases indexed_serve (standing_served requests) h with h | h
      · obtain ⟨earlier, hmem, hoffers⟩ := ih h
        exact ⟨earlier, List.mem_append_left _ hmem, hoffers⟩
      · exact ⟨request, List.mem_append_right _ (List.mem_singleton_self _), h⟩

/-- A path that a run offers, as it is made of names and steps up. Steps up were given to the run. -/
structure Request.Spells (request : Request) (q : String) (cs : List Component) : Prop where
  ne_nil : cs ≠ []
  inner : ∀ c ∈ cs, c.Inner
  path : q = Path.ofComponents cs
  given : Component.parent ∈ cs → ∃ t options now paths p, request = .files t options now paths ∧ p ∈ paths ∧
    Component.parent ∈ Path.components p ∧ Path.relative? t.root (Path.join t.root p) = some q

theorem Request.Offers.exists_spells {request : Request} {q : String} (hproper : request.seen.Proper) (h : request.Offers q) :
    ∃ cs, request.Spells q cs := by
  cases h with
  | found mem =>
      next names file =>
      obtain ⟨hne, hnames⟩ := hproper.files _ mem
      refine ⟨names.map .normal, by simpa using hne, ?_, ?_, ?_⟩
      · intro c hc
        obtain ⟨name, hname, rfl⟩ := List.mem_map.1 hc
        exact .normal (hnames name hname)
      · rw [Path.ofComponents, List.map_map, Tree.pathOf]
        exact congrArg _ (List.map_id names).symm
      · intro hup
        obtain ⟨name, -, hname⟩ := List.mem_map.1 hup
        cases hname
  | given mem seen =>
      next t options now paths p =>
      have hroot : Path.isAbsolute t.root = true := hproper.root
      obtain ⟨cs, hne, hinner, hjoin, rfl⟩ := Path.relative?_eq_some hroot (Path.isAbsolute_join hroot p) seen
      refine ⟨cs, hne, hinner, rfl, fun hup => ⟨t, options, now, paths, p, rfl, mem, ?_, seen⟩⟩
      exact Path.parent_mem_join hroot hjoin hup

theorem exists_spells_served {requests : List Request} (hproper : ∀ request ∈ requests, request.seen.Proper) {f : FileRecord}
    (hf : f ∈ (served requests).catalog.files) :
    ∃ request ∈ requests, request.Spells f.path (Path.components f.path) := by
  obtain ⟨request, hmem, hoffers⟩ := indexed_served ⟨f, hf, rfl⟩
  obtain ⟨cs, hcs⟩ := hoffers.exists_spells (hproper request hmem)
  have hcomponents : Path.components f.path = cs := by rw [hcs.path, Path.components_ofComponents hcs.ne_nil hcs.inner]
  exact ⟨request, hmem, hcomponents ▸ hcs⟩

theorem fileSummary_eq_ok {s : Store} (hs : s.catalog.WellFormed) {f : FileRecord} (hf : f ∈ s.catalog.files)
    (hnormal : Path.normalize f.path = .ok f.path) : ∃ summary, s.fileSummary f.path = .ok summary ∧ summary.file = f := by
  have hfile : s.catalog.file? f.path = some f := (Catalog.file?_eq_some_iff hs).2 ⟨hf, rfl⟩
  rw [Store.fileSummary, Store.requireFile, hnormal]
  simp only [hfile]
  exact ⟨_, rfl, rfl⟩

/-- After runs over proper trees the path of an indexed file is kept as it is by queries just if it does not step up. Then
the file is found under it, and no other such file leads to the same place of a tree. A path that steps up is refused by
queries, and was given so to some run. -/
theorem normalize_path_iff {requests : List Request} (hproper : ∀ request ∈ requests, request.seen.Proper) :
    (∀ f ∈ (served requests).catalog.files,
      (Path.normalize f.path = .ok f.path ↔ Component.parent ∉ Path.components f.path) ∧
      (Component.parent ∉ Path.components f.path →
        ∃ summary, (served requests).fileSummary f.path = .ok summary ∧ summary.file = f) ∧
      (Component.parent ∈ Path.components f.path →
        Path.normalize f.path = .error (.invalidQuery (.outsideRoot f.path)) ∧
        ∃ t options now paths p, .files t options now paths ∈ requests ∧ p ∈ paths ∧
          Component.parent ∈ Path.components p ∧ Path.relative? t.root (Path.join t.root p) = some f.path)) ∧
    ∀ f ∈ (served requests).catalog.files, ∀ f' ∈ (served requests).catalog.files,
      Component.parent ∉ Path.components f.path → Component.parent ∉ Path.components f'.path →
        ∀ (t : Tree) (names : List String), t.locate? f.path = some names → t.locate? f'.path = some names → f = f' := by
  have hcatalog : (served requests).catalog.WellFormed := (standing_served requests).catalog
  constructor
  · intro f hf
    obtain ⟨request, hmem, hspells⟩ := exists_spells_served hproper hf
    have hnormalize := Path.normalize_ofComponents hspells.ne_nil hspells.inner
    rw [← hspells.path] at hnormalize
    by_cases hup : Component.parent ∈ Path.components f.path
    · rw [if_pos hup] at hnormalize
      obtain ⟨t, options, now, paths, p, rfl, hp, hpup, hseen⟩ := hspells.given hup
      refine ⟨iff_of_false ?_ (not_not.2 hup), fun hno => absurd hup hno, fun _ =>
        ⟨hnormalize, t, options, now, paths, p, hmem, hp, hpup, hseen⟩⟩
      rw [hnormalize]
      exact fun heq => by cases heq
    · rw [if_neg hup] at hnormalize
      exact ⟨iff_of_true hnormalize hup, fun _ => fileSummary_eq_ok hcatalog hf hnormalize, fun h => absurd h hup⟩
  · intro f hf f' hf' hup hup' t names hplace hplace'
    obtain ⟨_, _, hspells⟩ := exists_spells_served hproper hf
    obtain ⟨_, _, hspells'⟩ := exists_spells_served hproper hf'
    rw [hspells.path] at hplace
    rw [hspells'.path] at hplace'
    -- A path without steps up leads to the place that it names, so two that lead to one place are one path.
    have hnames := Tree.locate?_ofComponents hspells.ne_nil hspells.inner hup hplace
    have hnames' := Tree.locate?_ofComponents hspells'.ne_nil hspells'.inner hup' hplace'
    apply hcatalog.file_eq_of_path hf hf'
    rw [hspells.path, hspells'.path, Path.ofComponents, Path.ofComponents, ← hnames, ← hnames']

/-! ## A detour -/

/-- A file in the root, and a directory beside it. -/
def detourTree : Tree :=
  { root := "/app"
    files := [(["a.rb"], ⟨Text.encode "class A\nend\n", 0⟩), (["lib", "b.rb"], ⟨[], 0⟩)]
    directories := [["lib"]] }

/-- The file is given by way of the directory, and then by its name. -/
def detourRuns : List Request := [.files detourTree {} 0 ["lib/../a.rb"], .files detourTree {} 0 ["a.rb"]]

theorem proper_detourRuns : ∀ request ∈ detourRuns, request.seen.Proper := by
  have htree : detourTree.Proper := ⟨by decide, by decide⟩
  simpa [detourRuns, Request.seen] using htree

set_option maxRecDepth 100000 in
theorem files_detourRuns :
    (∃ f ∈ (served detourRuns).catalog.files, f.path = "lib/../a.rb") ∧
      ∃ f ∈ (served detourRuns).catalog.files, f.path = "a.rb" := by
  decide +kernel

/-- One file can be indexed under two paths, one of which no query accepts. -/
theorem exists_path_not_normal :
    ∃ f ∈ (served detourRuns).catalog.files, ∃ f' ∈ (served detourRuns).catalog.files, f ≠ f' ∧
      detourTree.locate? f.path = some ["a.rb"] ∧ detourTree.locate? f'.path = some ["a.rb"] ∧
      Path.normalize f.path = .error (.invalidQuery (.outsideRoot "lib/../a.rb")) ∧
      Path.normalize f'.path = .ok f'.path := by
  obtain ⟨⟨f, hf, hpath⟩, ⟨f', hf', hpath'⟩⟩ := files_detourRuns
  refine ⟨f, hf, f', hf', ?_, ?_⟩
  · rintro rfl
    exact absurd (hpath.symm.trans hpath') (by decide)
  · rw [hpath, hpath']
    decide

theorem normalize_path_iff_detour :
    (∀ request ∈ detourRuns, request.seen.Proper) ∧
      (∃ f ∈ (served detourRuns).catalog.files, f.path = "lib/../a.rb" ∧ Path.normalize f.path ≠ .ok f.path ∧
        ∃ t options now paths p, .files t options now paths ∈ detourRuns ∧ p ∈ paths ∧
          Component.parent ∈ Path.components p ∧ Path.relative? t.root (Path.join t.root p) = some f.path) ∧
      ∃ f ∈ (served detourRuns).catalog.files, f.path = "a.rb" ∧ Path.normalize f.path = .ok f.path ∧
        ∃ summary, (served detourRuns).fileSummary f.path = .ok summary ∧ summary.file = f := by
  obtain ⟨hpaths, -⟩ := normalize_path_iff proper_detourRuns
  obtain ⟨⟨f, hf, hpath⟩, ⟨f', hf', hpath'⟩⟩ := files_detourRuns
  have hup : Component.parent ∈ Path.components f.path := by rw [hpath]; decide
  have hplain : Component.parent ∉ Path.components f'.path := by rw [hpath']; decide
  obtain ⟨hiff, -, hgiven⟩ := hpaths f hf
  obtain ⟨hiff', hsummary, -⟩ := hpaths f' hf'
  exact ⟨proper_detourRuns, ⟨f, hf, hpath, fun h => hiff.1 h hup, (hgiven hup).2⟩,
    ⟨f', hf', hpath', hiff'.2 hplain, hsummary hplain⟩⟩

end Indexing

end CodeAtlas
