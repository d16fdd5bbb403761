import CodeAtlas.Proofs.Indexing.Upkeep
import CodeAtlas.Proofs.Projection.Requiring
/-!
# The order of a full run

The files of a run are outlined side by side and committed as they are done, so a full run may commit its files in any
order (`Schedule`). Which file a plain `require` names is settled when the requiring file is committed, by the files
known then, and so the `requires` edges depend on the order. `Schedule.requirePairs` computes them. If each file in
`lib/` that is required and indexed is committed no later than the files that require it, and nothing else names one
that is not indexed, then the edges are what all files together say, in whatever order (`requires_of_schedule`).
-/

namespace CodeAtlas

/-- The `requires` edges, as the keys of their ends. -/
def Graph.requirePairs (g : Graph) : List (String × String) :=
  (g.edges.filter (·.kind = .requires)).flatMap fun e =>
    match g.node? e.source, g.node? e.target with
    | some s, some t => [(s.key, t.key)]
    | _, _ => []

theorem Graph.mem_requirePairs {g : Graph} (hg : g.WellFormed) (hheld : g.AllHeld) (p q : String) :
    (p, q) ∈ g.requirePairs ↔
      ∃ l x, l.kind = .requires ∧ g.Holds l x ∧ l.source.2 = p ∧ l.target.2 = q := by
  simp only [requirePairs, List.mem_flatMap, List.mem_filter, decide_eq_true_eq]
  constructor
  · rintro ⟨e, ⟨he, hkind⟩, h⟩
    obtain ⟨x, hx⟩ := hheld e he
    split at h
    · next s t hs ht =>
        obtain ⟨hs, hsid⟩ := (node?_eq_some_iff hg _ _).1 hs
        obtain ⟨ht, htid⟩ := (node?_eq_some_iff hg _ _).1 ht
        simp only [List.mem_singleton, Prod.mk.injEq] at h
        exact ⟨⟨e.kind, s.identity, t.identity⟩, x, hkind,
          ⟨e, he, ⟨rfl, ⟨s, hs, hsid, rfl⟩, ⟨t, ht, htid, rfl⟩⟩, hx⟩, h.1.symm, h.2.symm⟩
    · exact absurd h (by simp)
  · rintro ⟨l, x, hkind, ⟨e, he, ⟨hk, ⟨s, hs, hsid, hsi⟩, ⟨t, ht, htid, hti⟩⟩, _⟩, rfl, rfl⟩
    refine ⟨e, ⟨he, hk.trans hkind⟩, ?_⟩
    rw [(node?_eq_some_iff hg _ _).2 ⟨hs, hsid⟩, (node?_eq_some_iff hg _ _).2 ⟨ht, htid⟩, ← hsi, ← hti]
    exact List.mem_singleton_self _

namespace Indexing

open Projection

/-- Files with what their outlining came to. -/
abbrev Outlined := List (PendingFile × Outcome Outline)

/-- The files of a full run in the order in which they are committed. Each occurs once, and the schema is none of
them. -/
structure Schedule where
  order : Outlined
  once : (order.map fun x => x.1.path).Nodup
  files : Schema.origin ∉ order.map fun x => x.1.path

/-- A full run that commits its files in the order of a schedule. -/
def Schedule.run (s : Schedule) (t : Tree) (options : IndexOptions) (now : Int) (store : Store)
    (report : IndexReport) : Run :=
  finish t options now true
    (commitAll now (Run.tell { desk := { store := store.clear }, report := report } (.extracting s.order.length))
      s.order)

/-- The paths of the files that could be outlined. -/
def indexedPaths (order : Outlined) : List String :=
  order.filterMap fun x => match x.2 with
    | .ok _ => some x.1.path
    | .error _ => none

/-- The files that are known once a file is committed, where `known` were known before. -/
def knownWith (known : String → Bool) (file : PendingFile) (o : Outline) (f : String) : Bool :=
  known f || f = file.path || (requireTargets known file.path o).contains f

/-- The files that are known once files are committed. -/
def knownAfter (known : String → Bool) : Outlined → String → Bool
  | [] => known
  | (_, .error _) :: rest => knownAfter known rest
  | (file, .ok o) :: rest => knownAfter (knownWith known file o) rest

/-- What files require that are committed one after the other. -/
def requiresFrom (known : String → Bool) : Outlined → List (String × String)
  | [] => []
  | (_, .error _) :: rest => requiresFrom known rest
  | (file, .ok o) :: rest =>
    (requireTargets known file.path o).map (file.path, ·) ++ requiresFrom (knownWith known file o) rest

namespace Schedule

/-- The files that a run over the schedule indexes. -/
def indexed (s : Schedule) : List String := indexedPaths s.order

/-- What the files of the schedule require. -/
def requirePairs (s : Schedule) : List (String × String) := requiresFrom (fun _ => false) s.order

end Schedule

/-! ## What is known and required along an order -/

section

variable {known : String → Bool} {order : Outlined}

theorem knownAfter_append (first second : Outlined) :
    knownAfter known (first ++ second) = knownAfter (knownAfter known first) second := by
  induction first generalizing known with
  | nil => rfl
  | cons x rest ih =>
      obtain ⟨file, extracted⟩ := x
      cases extracted with
      | error e => exact ih
      | ok o => exact ih

theorem requiresFrom_append (first second : Outlined) :
    requiresFrom known (first ++ second) =
      requiresFrom known first ++ requiresFrom (knownAfter known first) second := by
  induction first generalizing known with
  | nil => rfl
  | cons x rest ih =>
      obtain ⟨file, extracted⟩ := x
      cases extracted with
      | error e => exact ih
      | ok o =>
          rw [List.cons_append, requiresFrom, requiresFrom, ih, List.append_assoc]
          rfl

theorem mem_indexedPaths {f : String} : f ∈ indexedPaths order ↔ ∃ file o, (file, .ok o) ∈ order ∧ file.path = f := by
  simp only [indexedPaths, List.mem_filterMap]
  constructor
  · rintro ⟨⟨file, extracted⟩, hmem, h⟩
    cases extracted with
    | error e => exact absurd h (by simp)
    | ok o => exact ⟨file, o, hmem, by simpa using h⟩
  · rintro ⟨file, o, hmem, rfl⟩
    exact ⟨_, hmem, rfl⟩

theorem indexedPaths_append (first second : Outlined) :
    indexedPaths (first ++ second) = indexedPaths first ++ indexedPaths second := List.filterMap_append

theorem mem_indexedPaths_of_subset {first second : Outlined} (h : first ⊆ second) {f : String}
    (hf : f ∈ indexedPaths first) : f ∈ indexedPaths second := by
  obtain ⟨file, o, hmem, hpath⟩ := mem_indexedPaths.1 hf
  exact mem_indexedPaths.2 ⟨file, o, h hmem, hpath⟩

theorem mem_indexedPaths_of_perm {first second : Outlined} (h : first.Perm second) {f : String} :
    f ∈ indexedPaths first ↔ f ∈ indexedPaths second :=
  ⟨mem_indexedPaths_of_subset h.subset, mem_indexedPaths_of_subset h.symm.subset⟩

/-- Each pair comes from a file, by what was known when that file was committed. -/
theorem mem_requiresFrom {p q : String} :
    (p, q) ∈ requiresFrom known order ↔
      ∃ before file o after, order = before ++ (file, .ok o) :: after ∧ file.path = p ∧
        q ∈ requireTargets (knownAfter known before) file.path o := by
  constructor
  · intro h
    induction order generalizing known with
    | nil => exact absurd h (by simp [requiresFrom])
    | cons x rest ih =>
        obtain ⟨file, extracted⟩ := x
        cases extracted with
        | error e =>
            obtain ⟨before, file', o, after, rfl, hpath, hq⟩ := ih h
            exact ⟨_ :: before, file', o, after, rfl, hpath, hq⟩
        | ok o =>
            rcases List.mem_append.1 h with h | h
            · simp only [List.mem_map, Prod.mk.injEq] at h
              obtain ⟨q, hq, rfl, rfl⟩ := h
              exact ⟨[], file, o, rest, rfl, rfl, hq⟩
            · obtain ⟨before, file', o', after, rfl, hpath, hq⟩ := ih h
              exact ⟨_ :: before, file', o', after, rfl, hpath, hq⟩
  · rintro ⟨before, file, o, after, rfl, rfl, hq⟩
    rw [requiresFrom_append, requiresFrom]
    exact List.mem_append_right _ (List.mem_append_left _ (List.mem_map_of_mem hq))

theorem knownAfter_of_known {f : String} (h : known f = true) : knownAfter known order f = true := by
  induction order generalizing known with
  | nil => exact h
  | cons x rest ih =>
      obtain ⟨file, extracted⟩ := x
      cases extracted with
      | error e => exact ih h
      | ok o => exact ih (by simp [knownWith, h])

/-- A file is known once it is committed. -/
theorem knownAfter_of_indexed {f : String} (h : f ∈ indexedPaths order) : knownAfter known order f = true := by
  obtain ⟨file, o, hmem, rfl⟩ := mem_indexedPaths.1 h
  obtain ⟨before, after, rfl⟩ := List.append_of_mem hmem
  rw [knownAfter_append]
  change knownAfter (knownWith (knownAfter known before) file o) after file.path = true
  exact knownAfter_of_known (by simp [knownWith])

/-- No file of the order is the file `f` or names it, except by a plain `require` that could mean it. -/
structure Unnamed (order : Outlined) (f : String) : Prop where
  notIndexed : f ∉ indexedPaths order
  notRelative : ∀ file o, (file, .ok o) ∈ order → f ∉ o.requireRelatives.map (resolveRelative file.path)
  notPlain : ∀ file o, (file, .ok o) ∈ order → ∀ x ∈ o.requires, plainFile x ≠ f

theorem Unnamed.mono {first second : Outlined} {f : String} (h : Unnamed second f) (hsub : first ⊆ second) :
    Unnamed first f :=
  ⟨fun hf => h.notIndexed (mem_indexedPaths_of_subset hsub hf), fun file o hmem => h.notRelative file o (hsub hmem),
    fun file o hmem => h.notPlain file o (hsub hmem)⟩

/-- A file that nobody names stays unknown. -/
theorem Unnamed.knownAfter {f : String} (h : Unnamed order f) (hf : known f = false) :
    knownAfter known order f = false := by
  induction order generalizing known with
  | nil => exact hf
  | cons x rest ih =>
      obtain ⟨file, extracted⟩ := x
      have hrest : Unnamed rest f := h.mono (List.subset_cons_self _ _)
      cases extracted with
      | error e => exact ih hrest hf
      | ok o =>
          have hpath : f ≠ file.path := by
            rintro rfl
            exact h.notIndexed (mem_indexedPaths.2 ⟨file, o, List.mem_cons_self, rfl⟩)
          have hplain : f ∉ plainTargets (fun f => known f || f = file.path) o.requires :=
            not_mem_plainTargets (by simp [hf, hpath]) (h.notPlain file o List.mem_cons_self)
          have htargets : f ∉ requireTargets known file.path o := by
            rw [requireTargets, List.mem_append, not_or]
            exact ⟨hplain, h.notRelative file o List.mem_cons_self⟩
          exact ih hrest (by simp [knownWith, hf, hpath, htargets])

end

/-! ## Orders in which every required file is settled -/

namespace Schedule

/-- Each file in `lib/` that a file may mean by a plain `require` is committed with it or before it, or is not indexed
and named by nobody else. -/
def Settled (s : Schedule) : Prop :=
  ∀ before file o after, s.order = before ++ (file, .ok o) :: after → ∀ x ∈ o.requires,
    libFile x ∈ indexedPaths (before ++ [(file, .ok o)]) ∨ Unnamed s.order (libFile x)

/-- The file that a plain `require` names if all files of the schedule are known. -/
def target (s : Schedule) (required : String) : String :=
  if libFile required ∈ s.indexed then libFile required else plainFile required

variable {s : Schedule}

/-- In a settled schedule a file in `lib/` that may be meant is known if and only if it is indexed. -/
theorem Settled.known_iff (h : s.Settled) {before after : Outlined} {file : PendingFile} {o : Outline}
    (horder : s.order = before ++ (file, .ok o) :: after) {x : String} (hx : x ∈ o.requires) :
    (knownAfter (fun _ => false) before (libFile x) || libFile x = file.path) = true ↔ libFile x ∈ s.indexed := by
  have hindexed : s.indexed = indexedPaths before ++ file.path :: indexedPaths after := by
    rw [indexed, horder, indexedPaths_append]
    rfl
  rcases h before file o after horder x hx with hdone | hunnamed
  · rw [indexedPaths_append] at hdone
    rcases List.mem_append.1 hdone with hbefore | hself
    · simp [hindexed, hbefore, knownAfter_of_indexed hbefore]
    · simp [hindexed, List.mem_singleton.1 hself]
  · have hbefore : before ⊆ s.order := by
      rw [horder]
      exact List.subset_append_left _ _
    have hnot : libFile x ∉ s.indexed := hunnamed.notIndexed
    have hunknown : knownAfter (fun _ => false) before (libFile x) = false := (hunnamed.mono hbefore).knownAfter rfl
    have hother : libFile x ≠ file.path := by
      intro heq
      exact hnot (by simp [hindexed, heq])
    simp [hunknown, hother, hnot]

theorem Settled.requireTargets_eq (h : s.Settled) {before after : Outlined} {file : PendingFile} {o : Outline}
    (horder : s.order = before ++ (file, .ok o) :: after) :
    requireTargets (knownAfter (fun _ => false) before) file.path o =
      o.requires.map s.target ++ o.requireRelatives.map (resolveRelative file.path) := by
  have hmem : (file, .ok o) ∈ s.order := horder ▸ List.mem_append_cons_self
  rw [requireTargets, plainTargets_eq_map]
  · refine congrArg (· ++ _) (List.map_congr_left ?_)
    intro x hx
    rw [requiredFile_eq, target]
    exact if_congr (h.known_iff horder hx) rfl rfl
  · intro x hx
    by_cases hindexed : libFile x ∈ s.indexed
    · exact Or.inl ((h.known_iff horder hx).2 hindexed)
    · right
      rcases h before file o after horder x hx with hdone | hunnamed
      · have hsub : before ++ [(file, .ok o)] ⊆ s.order := by
          rw [horder, List.append_cons before _ after]
          exact List.subset_append_left _ after
        exact absurd (mem_indexedPaths_of_subset hsub hdone) hindexed
      · exact hunnamed.notPlain file o hmem

/-- In a settled schedule each file requires what all files together say. -/
theorem Settled.mem_requirePairs (h : s.Settled) {p q : String} :
    (p, q) ∈ s.requirePairs ↔ ∃ file o, (file, .ok o) ∈ s.order ∧ file.path = p ∧
      ((∃ x ∈ o.requires, q = s.target x) ∨ ∃ r ∈ o.requireRelatives, q = resolveRelative p r) := by
  have htargets : ∀ before file o after, s.order = before ++ (file, .ok o) :: after →
      (q ∈ requireTargets (knownAfter (fun _ => false) before) file.path o ↔
        (∃ x ∈ o.requires, q = s.target x) ∨ ∃ r ∈ o.requireRelatives, q = resolveRelative file.path r) := by
    intro before file o after horder
    rw [h.requireTargets_eq horder]
    simp only [List.mem_append, List.mem_map, eq_comm]
  rw [requirePairs, mem_requiresFrom]
  constructor
  · rintro ⟨before, file, o, after, horder, rfl, hq⟩
    exact ⟨file, o, horder ▸ List.mem_append_cons_self, rfl, (htargets before file o after horder).1 hq⟩
  · rintro ⟨file, o, hmem, rfl, hq⟩
    obtain ⟨before, after, horder⟩ := List.append_of_mem hmem
    exact ⟨before, file, o, after, horder, rfl, (htargets before file o after horder).2 hq⟩

end Schedule

/-! ## A run along an order -/

/-- The index after the files `done` were committed to an empty one. -/
structure Follows (done : Outlined) (d : Desk) : Prop where
  sound : d.Sound
  indexed : ∀ f, d.store.catalog.Indexed f ↔ f ∈ indexedPaths done
  known : ∀ f, d.store.graph.Has (.file, f) ↔ knownAfter (fun _ => false) done f = true
  requires : ∀ l x, l.kind = .requires → (d.store.graph.Holds l x ↔
    ∃ q, l = ⟨.requires, (.file, x), (.file, q)⟩ ∧ (x, q) ∈ requiresFrom (fun _ => false) done)

theorem follows_clear (s : Store) : Follows [] { store := s.clear } := by
  refine ⟨standing_clear s, ?_, ?_, ?_⟩
  · intro f
    exact iff_of_false (Catalog.not_indexed_clear _ _) (by simp [indexedPaths])
  · intro f
    simp [knownAfter, Store.clear, Graph.clear, Graph.Has, Graph.Names]
  · intro l x _
    simp [requiresFrom, Store.clear, Graph.clear, Graph.Holds]

theorem requiresFrom_singleton (known : String → Bool) (file : PendingFile) (o : Outline) :
    requiresFrom known [(file, .ok o)] = (requireTargets known file.path o).map (file.path, ·) :=
  List.append_nil _

theorem follows_commitFile {done : Outlined} {d : Desk} (h : Follows done d) (now : Int) {file : PendingFile}
    (hnew : file.path ∉ indexedPaths done) (o : Outline) :
    Follows (done ++ [(file, .ok o)]) (commitFile now d file o).1 := by
  have hsound := sound_commitFile h.sound now file o
  have hw := h.sound.start file.path
  have hfresh : ¬ d.store.catalog.Indexed file.path := fun hI => hnew ((h.indexed _).1 hI)
  obtain ⟨c, hafter, _, hadded, _⟩ := commitFile_eq h.sound now file o
  have hknown : (fun f => (d.store.graph.nodeId? .file f).isSome) = knownAfter (fun _ => false) done := by
    funext f
    rw [Bool.eq_iff_iff, Graph.nodeId?_isSome_iff h.sound.session.graph, h.known]
  have hstatements : (fileChange file o).statements ⟨d.store.graph, d.cache⟩ =
      fileStatements file.path (categoryOf file.path o) (completed file o) (fun i => d.cache.isBuilt i.1 i.2)
        (knownAfter (fun _ => false) done) := by
    rw [← hknown]
    rfl
  rw [hstatements] at hafter
  rw [hafter] at hsound ⊢
  refine ⟨hsound, ?_, ?_, ?_⟩
  · intro f
    rw [indexedPaths_append, List.mem_append, ← h.indexed]
    exact (hadded f).trans (or_congr Iff.rfl List.mem_singleton.symm)
  · intro f
    rw [knownAfter_append]
    refine (has_file_fileUnit hw c h.sound.traces hfresh h.known f).trans ?_
    change _ ↔ knownWith (knownAfter (fun _ => false) done) file o f = true
    simp only [knownWith, Bool.or_eq_true, decide_eq_true_eq, List.contains_iff_mem, or_assoc]
    rfl
  · intro l x hkind
    refine (holds_requires_fileUnit hw c h.sound.traces hfresh hkind x).trans ?_
    rw [h.requires l x hkind, requiresFrom_append, requiresFrom_singleton]
    constructor
    · rintro (⟨q, hl, hq⟩ | ⟨rfl, q, hq, hl⟩)
      · exact ⟨q, hl, List.mem_append_left _ hq⟩
      · exact ⟨q, hl, List.mem_append_right _ (List.mem_map_of_mem hq)⟩
    · rintro ⟨q, hl, hq⟩
      rcases List.mem_append.1 hq with hq | hq
      · exact Or.inl ⟨q, hl, hq⟩
      · simp only [List.mem_map, Prod.mk.injEq] at hq
        obtain ⟨_, htarget, rfl, rfl⟩ := hq
        exact Or.inr ⟨rfl, _, htarget, hl⟩

theorem follows_commitExtracted {done : Outlined} {r : Run} (h : Follows done r.desk) (now : Int) {file : PendingFile}
    (hnew : file.path ∉ indexedPaths done) (extracted : Outcome Outline) :
    Follows (done ++ [(file, extracted)]) (commitExtracted now r file extracted).desk := by
  cases extracted with
  | error e =>
      have hpaths : indexedPaths (done ++ [(file, .error e)]) = indexedPaths done := by
        rw [indexedPaths_append]
        exact List.append_nil _
      have hknown : knownAfter (fun _ => false) (done ++ [(file, .error e)]) = knownAfter (fun _ => false) done :=
        knownAfter_append _ _
      have hrequires : requiresFrom (fun _ => false) (done ++ [(file, .error e)]) =
          requiresFrom (fun _ => false) done := by
        rw [requiresFrom_append]
        exact List.append_nil _
      refine ⟨h.sound.rollback, ?_, ?_, ?_⟩
      · rw [hpaths]
        exact h.indexed
      · rw [hknown]
        exact h.known
      · rw [hrequires]
        exact h.requires
  | ok o =>
      have hcommit := follows_commitFile h now hnew o
      unfold commitExtracted
      dsimp only
      split <;> exact hcommit

theorem follows_commitAll {done rest : Outlined} {r : Run} (h : Follows done r.desk) (now : Int)
    (hnodup : ((done ++ rest).map fun x => x.1.path).Nodup) : Follows (done ++ rest) (commitAll now r rest).desk := by
  induction rest generalizing done r with
  | nil =>
      rw [List.append_nil]
      exact h
  | cons x rest ih =>
      rw [List.append_cons] at hnodup ⊢
      refine ih (follows_commitExtracted h now ?_ x.2) hnodup
      intro hmem
      obtain ⟨file, o, hmem, hpath⟩ := mem_indexedPaths.1 hmem
      rw [List.map_append, List.map_append] at hnodup
      obtain ⟨hfirst, _, _⟩ := List.nodup_append.1 hnodup
      obtain ⟨_, _, hdisjoint⟩ := List.nodup_append.1 hfirst
      exact hdisjoint _ (List.mem_map_of_mem hmem) _ (List.mem_singleton_self _) hpath

/-! ## The whole run -/

theorem holds_requires_settle {H : Link → String → Prop} (hH : ∀ l x, H l x → x ≠ Schema.origin) {d : Desk}
    (hd : d.Sound) (h : ∀ l x, l.kind = .requires → (d.store.graph.Holds l x ↔ H l x)) {next : Graph → Store}
    (hgraph : ∀ g, (next g).graph = g) (s : Schema) {l : Link} (hkind : l.kind = .requires) (x : String) :
    (d.settle next (projectSchema d.store.catalog d.store.graph d.cache s)).1.store.graph.Holds l x ↔ H l x := by
  have hp : (d.store.graph.bySource .fromSchema).Sublist d.store.graph.nodes := List.filter_sublist
  rw [store_settle hd, hgraph, holds_unit (hd.start Schema.origin) hp, h l x hkind]
  constructor
  · rintro (⟨_, hx⟩ | ⟨_, _, _, hrel⟩)
    · exact hx
    · cases schemaLink_of_mem hrel <;> exact absurd hkind (by simp)
  · intro hx
    exact Or.inl ⟨hH l x hx, hx⟩

/-- The units of the schema leave `requires` edges alone. -/
theorem keptBySchema_requires {H : Link → String → Prop} (hH : ∀ l x, H l x → x ≠ Schema.origin) :
    KeptBySchema fun s => ∀ l x, l.kind = .requires → (s.graph.Holds l x ↔ H l x) where
  notes _ _ h := h
  commitSchema _ hd h _ s _ x hkind := holds_requires_settle hH hd h (fun _ => rfl) s hkind x
  removeSchema _ hd h _ x hkind := holds_requires_settle hH hd h (fun _ => rfl) {} hkind x

namespace Schedule

theorem follows_order (s : Schedule) (now : Int) (store : Store) (report : IndexReport) :
    Follows s.order (commitAll now
      (Run.tell { desk := { store := store.clear }, report := report } (.extracting s.order.length)) s.order).desk := by
  have hstart : Follows [] (Run.tell { desk := { store := store.clear }, report := report }
      (.extracting s.order.length)).desk := follows_clear store
  exact follows_commitAll hstart now s.once

/-- No file of a schedule is the schema. -/
theorem ne_origin_of_mem (s : Schedule) {p q : String} (h : (p, q) ∈ s.requirePairs) : p ≠ Schema.origin := by
  obtain ⟨before, file, o, after, horder, rfl, _⟩ := mem_requiresFrom.1 h
  intro heq
  exact s.files (heq ▸ List.mem_map.2 ⟨(file, .ok o), horder ▸ List.mem_append_cons_self, rfl⟩)

/-- A run over a schedule indexes its files, and its `requires` edges are those of the schedule. -/
theorem run_spec (s : Schedule) (t : Tree) (options : IndexOptions) (now : Int) (store : Store) (report : IndexReport) :
    (∀ f, (s.run t options now store report).desk.store.catalog.Indexed f ↔ f ∈ s.indexed) ∧
      ∀ p q, (p, q) ∈ (s.run t options now store report).desk.store.graph.requirePairs ↔ (p, q) ∈ s.requirePairs := by
  have hfollows := s.follows_order now store report
  have hfinish := refreshes_finish hfollows.sound t options now true
  have hH : ∀ (l : Link) (x : String),
      (∃ q, l = ⟨.requires, (.file, x), (.file, q)⟩ ∧ (x, q) ∈ s.requirePairs) → x ≠ Schema.origin :=
    fun l x ⟨q, _, hq⟩ => s.ne_origin_of_mem hq
  have hholds := (keptBySchema_requires hH).finish hfollows.sound hfollows.requires t options now true
  constructor
  · intro f
    change (finish t options now true _).desk.store.catalog.Indexed f ↔ _
    rw [hfinish.catalog]
    exact hfollows.indexed f
  · intro p q
    refine (Graph.mem_requirePairs hfinish.sound.session.graph hfinish.sound.session.held p q).trans ?_
    constructor
    · rintro ⟨l, x, hkind, hx, rfl, rfl⟩
      obtain ⟨q, rfl, hq⟩ := (hholds l x hkind).1 hx
      exact hq
    · intro hq
      exact ⟨⟨.requires, (.file, p), (.file, q)⟩, p, rfl, (hholds _ p rfl).2 ⟨q, rfl, hq⟩, rfl, rfl⟩

end Schedule

/-- A full run over a tree commits its files along a schedule. -/
theorem exists_schedule_run_eq {t : Tree} (ht : (t.files.map fun f => Tree.pathOf f.1).Nodup) {options : IndexOptions}
    {paths : List String} (h : t.sources options.extensions options.exclude = .ok paths) (now : Int) (store : Store) :
    ∃ (s : Schedule) (report : IndexReport),
      run t options now .full store =
        ((s.run t options now store report).desk.store, .ok (s.run t options now store report)) := by
  obtain ⟨hnodup, horigin⟩ := sources_spec ht h
  let files := readFiles t store.clear.catalog.fingerprint? false paths { mode := .full }
  have hsublist : (files.1.map PendingFile.path).Sublist paths := readFiles_sublist t _ _ _ _
  have hpaths : (files.1.map fun file => (file, options.extractor.extract t (inputOf t file))).map (fun x => x.1.path) =
      files.1.map PendingFile.path := by
    rw [List.map_map]
    rfl
  let s : Schedule := {
    order := files.1.map fun file => (file, options.extractor.extract t (inputOf t file))
    once := by
      rw [hpaths]
      exact hnodup.sublist hsublist
    files := by
      rw [hpaths]
      exact fun hmem => horigin (hsublist.subset hmem) }
  refine ⟨s, files.2, ?_⟩
  have hgone : sortedPaths ((store.clear.catalog.files.map (·.path)).filter fun path => !paths.contains path) = [] := by
    simp [Store.clear, Catalog.clear, sortedPaths]
  have hrun : execute t options now false true store.clear ⟨paths, [], { mode := .full }⟩ =
      s.run t options now store files.2 := by
    unfold Schedule.run
    rw [show s.order.length = files.1.length from List.length_map _]
    rfl
  unfold run
  dsimp only
  rw [if_pos rfl, h]
  dsimp only
  rw [hgone]
  exact congrArg (fun r : Run => (r.desk.store, (.ok r : Outcome Run))) hrun

/-- The `requires` edges of a full run over a schedule. Each plain `require` names a file by what was known when the
requiring file was committed. In a settled schedule it names the file in `lib/` if that file is indexed, and the file
without `lib/` otherwise; so any two settled orders of the same files lead to the same edges. -/
theorem requires_of_schedule (s : Schedule) (t : Tree) (options : IndexOptions) (now : Int) (store : Store)
    (report : IndexReport) :
    (∀ f, (s.run t options now store report).desk.store.catalog.Indexed f ↔ f ∈ s.indexed) ∧
    (∀ p q, (p, q) ∈ (s.run t options now store report).desk.store.graph.requirePairs ↔
      ∃ before file o after, s.order = before ++ (file, .ok o) :: after ∧ file.path = p ∧
        q ∈ requireTargets (knownAfter (fun _ => false) before) file.path o) ∧
    (s.Settled →
      (∀ p q, (p, q) ∈ (s.run t options now store report).desk.store.graph.requirePairs ↔
        ∃ file o, (file, .ok o) ∈ s.order ∧ file.path = p ∧
          ((∃ x ∈ o.requires, q = s.target x) ∨ ∃ r ∈ o.requireRelatives, q = resolveRelative p r)) ∧
      ∀ s' : Schedule, s'.order.Perm s.order → s'.Settled → ∀ p q,
        (p, q) ∈ (s'.run t options now store report).desk.store.graph.requirePairs ↔
          (p, q) ∈ (s.run t options now store report).desk.store.graph.requirePairs) := by
  obtain ⟨hindexed, hpairs⟩ := s.run_spec t options now store report
  refine ⟨hindexed, fun p q => (hpairs p q).trans mem_requiresFrom, ?_⟩
  intro hsettled
  refine ⟨fun p q => (hpairs p q).trans hsettled.mem_requirePairs, ?_⟩
  intro s' hperm hsettled' p q
  rw [(s'.run_spec t options now store report).2, hpairs, hsettled.mem_requirePairs, hsettled'.mem_requirePairs]
  have htarget : s'.target = s.target := by
    funext x
    exact if_congr (mem_indexedPaths_of_perm hperm) rfl rfl
  simp only [htarget, hperm.mem_iff]

/-- A file that requires a file in `lib/` and one that is not there. -/
def requiring : PendingFile × Outcome Outline :=
  ({ path := "a.rb", text := "require \"x\"\nrequire \"set\"\n", fingerprint := "", modified := none },
    .ok { requires := ["x", "set"] })

/-- A file that declares and requires nothing. -/
def silent (path : String) : PendingFile × Outcome Outline :=
  ({ path := path, text := "", fingerprint := "", modified := none }, .ok {})

/-- The requiring file is committed before the file in `lib/`. -/
def hasty : Schedule := { order := [requiring, silent "lib/x.rb"], once := by decide, files := by decide }

/-- The file in `lib/` is committed before the requiring file. -/
def patient : Schedule := { order := [silent "lib/x.rb", requiring], once := by decide, files := by decide }

theorem requirePairs_hasty_patient :
    (hasty.run { root := "/app" } {} 0 {} { mode := .full }).desk.store.graph.requirePairs =
        [("a.rb", "x.rb"), ("a.rb", "set.rb")] ∧
      (patient.run { root := "/app" } {} 0 {} { mode := .full }).desk.store.graph.requirePairs =
        [("a.rb", "lib/x.rb"), ("a.rb", "set.rb")] := by
  refine ⟨by decide +kernel, by decide +kernel⟩

/-- Two orders of the same files can lead to different edges, and a plain `require` need not name a file in `lib/` that
is indexed in the same run. -/
theorem requires_depend_on_order :
    (¬ ∀ (s s' : Schedule) (t : Tree) (options : IndexOptions) (now : Int) (store : Store) (report : IndexReport),
      s.order.Perm s'.order → ∀ p q,
        (p, q) ∈ (s.run t options now store report).desk.store.graph.requirePairs ↔
          (p, q) ∈ (s'.run t options now store report).desk.store.graph.requirePairs) ∧
    ¬ ∀ (s : Schedule) (t : Tree) (options : IndexOptions) (now : Int) (store : Store) (report : IndexReport)
      (file : PendingFile) (o : Outline), (file, .ok o) ∈ s.order → ∀ x ∈ o.requires,
        (file.path, s.target x) ∈ (s.run t options now store report).desk.store.graph.requirePairs := by
  obtain ⟨hhasty, hpatient⟩ := requirePairs_hasty_patient
  constructor
  · intro h
    have hsame := (h hasty patient { root := "/app" } {} 0 {} { mode := .full } (List.Perm.swap _ _ _) "a.rb" "x.rb").1
    rw [hhasty, hpatient] at hsame
    exact absurd hsame (by decide)
  · intro h
    have htarget := h hasty { root := "/app" } {} 0 {} { mode := .full } requiring.1
      { requires := ["x", "set"] }
      List.mem_cons_self "x" List.mem_cons_self
    rw [hhasty] at htarget
    exact absurd htarget (by decide)

/-- The file in `lib/` is committed first, and another file last. -/
def early : Schedule :=
  { order := [silent "lib/x.rb", requiring, silent "b.rb"], once := by decide, files := by decide }

/-- The same files, where the other file is committed first. -/
def late : Schedule :=
  { order := [silent "b.rb", silent "lib/x.rb", requiring], once := by decide, files := by decide }

theorem mem_late {file : PendingFile} {o : Outline} (h : (file, .ok o) ∈ late.order) :
    o.requireRelatives = [] ∧ (o.requires = [] ∨ (file, .ok o) = requiring ∧ o.requires = ["x", "set"]) := by
  simp only [late, silent, requiring, List.mem_cons, List.not_mem_nil, or_false, Prod.mk.injEq, Except.ok.injEq] at h
  rcases h with ⟨rfl, rfl⟩ | ⟨rfl, rfl⟩ | ⟨rfl, rfl⟩
  · exact ⟨rfl, Or.inl rfl⟩
  · exact ⟨rfl, Or.inl rfl⟩
  · exact ⟨rfl, Or.inr ⟨rfl, rfl⟩⟩

theorem unnamed_late : Unnamed late.order "lib/set.rb" := by
  refine ⟨by decide, ?_, ?_⟩
  · intro file o h
    rw [(mem_late h).1]
    simp
  · intro file o h
    rcases (mem_late h).2 with hnone | ⟨_, hboth⟩
    · rw [hnone]
      simp
    · rw [hboth]
      decide

theorem settled_of_perm_late {s : Schedule} (hperm : s.order.Perm late.order)
    (h : ∀ before after, s.order = before ++ requiring :: after → silent "lib/x.rb" ∈ before) : s.Settled := by
  intro before file o after horder x hx
  have hmem : (file, .ok o) ∈ late.order := hperm.subset (horder ▸ List.mem_append_cons_self)
  rcases (mem_late hmem).2 with hnone | ⟨hfile, hboth⟩
  · rw [hnone] at hx
    exact absurd hx (by simp)
  · rw [hboth, List.mem_cons, List.mem_singleton] at hx
    rcases hx with rfl | rfl
    · left
      have hbefore := h before after (hfile ▸ horder)
      exact mem_indexedPaths.2 ⟨_, _, List.mem_append_left _ hbefore, by decide⟩
    · exact Or.inr (unnamed_late.mono hperm.subset)

theorem perm_early_late : early.order.Perm late.order :=
  @List.perm_append_comm _ [silent "lib/x.rb", requiring] [silent "b.rb"]

theorem settled_early : early.Settled := by
  refine settled_of_perm_late perm_early_late ?_
  intro before after h
  rcases before with _ | ⟨first, rest⟩
  · simp [early, silent, requiring] at h
  · simp only [early, List.cons_append, List.cons.injEq] at h
    rw [h.1]
    exact List.mem_cons_self

theorem settled_late : late.Settled := by
  refine settled_of_perm_late (List.Perm.refl _) ?_
  intro before after h
  rcases before with _ | ⟨first, _ | ⟨second, rest⟩⟩
  · simp [late, silent, requiring] at h
  · simp [late, silent, requiring] at h
  · simp only [late, List.cons_append, List.cons.injEq] at h
    rw [h.2.1]
    exact List.mem_cons_of_mem _ List.mem_cons_self

theorem requires_of_schedule_early_late :
    (early.Settled ∧ late.Settled) ∧
    ("a.rb", "lib/x.rb") ∈ (late.run { root := "/app" } {} 0 {} { mode := .full }).desk.store.graph.requirePairs ∧
    ("a.rb", "lib/x.rb") ∈ (early.run { root := "/app" } {} 0 {} { mode := .full }).desk.store.graph.requirePairs ∧
    ("a.rb", "set.rb") ∈ (early.run { root := "/app" } {} 0 {} { mode := .full }).desk.store.graph.requirePairs ∧
    ("a.rb", "x.rb") ∉ (early.run { root := "/app" } {} 0 {} { mode := .full }).desk.store.graph.requirePairs := by
  obtain ⟨_, _, hsettled⟩ := requires_of_schedule late { root := "/app" } {} 0 {} { mode := .full }
  obtain ⟨hpairs, hsame⟩ := hsettled settled_late
  have horder := hsame early perm_early_late settled_early
  have hmem : requiring ∈ late.order := by simp [late]
  have hx : ("a.rb", "lib/x.rb") ∈
      (late.run { root := "/app" } {} 0 {} { mode := .full }).desk.store.graph.requirePairs :=
    (hpairs _ _).2 ⟨_, _, hmem, rfl, Or.inl ⟨"x", by decide, by decide⟩⟩
  refine ⟨⟨settled_early, settled_late⟩, hx, (horder _ _).2 hx, ?_, ?_⟩
  · exact (horder _ _).2 ((hpairs _ _).2 ⟨_, _, hmem, rfl, Or.inl ⟨"set", by decide, by decide⟩⟩)
  · rw [horder, hpairs]
    rintro ⟨file, o, hfile, _, ⟨x, hx, heq⟩ | ⟨r, hr, _⟩⟩
    · rcases (mem_late hfile).2 with hnone | ⟨_, hboth⟩
      · rw [hnone] at hx
        exact absurd hx (by simp)
      · rw [hboth, List.mem_cons, List.mem_singleton] at hx
        rcases hx with rfl | rfl <;> exact absurd heq (by decide)
    · rw [(mem_late hfile).1] at hr
      exact absurd hr (by simp)

end Indexing

end CodeAtlas
