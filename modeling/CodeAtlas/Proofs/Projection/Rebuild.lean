import CodeAtlas.Proofs.Projection.History
import Mathlib.Data.List.Pairwise
/-!
# Histories and rebuilds

Which links are held, and by whom, depends on what is left of a history only: a rebuild that projects the last outline
of each file, in any order, ends with the same holdings as the history did. The statements of a file speak of the
state of the graph in two places, so this is said of histories where neither matters: no plain `require`, every
enclosing name declared before its use, and no name that is a class in one outline and a module in another.
-/

namespace CodeAtlas.Projection

/-- The outline declares a name as a symbol of a kind. -/
def DeclaresAs (o : Outline) (kind : SymbolKind) (name : String) : Prop :=
  ∃ d ∈ o.declarations, d.kind = kind ∧ d.name = name

/-- What the outline says does not depend on the graph: nothing is required by name, and the name that encloses a
declaration is that of a class or module declared before it. -/
structure Plain (o : Outline) : Prop where
  requires : o.requires = []
  nested : ∀ before d after, o.declarations = before ++ d :: after → ∀ name, d.enclosing = some name →
    ∃ e ∈ before, e.kind.isContainer = true ∧ e.name = name

/-- No name is a class in one outline and a module in the other. -/
def Compatible (o o' : Outline) : Prop :=
  ∀ name, ¬ (DeclaresAs o .classDecl name ∧ DeclaresAs o' .moduleDecl name) ∧
    ¬ (DeclaresAs o .moduleDecl name ∧ DeclaresAs o' .classDecl name)

/-- The outline that a change projects. -/
def Change.outline? : Change → Option Outline
  | .project _ _ o => some o
  | _ => none

/-- The outlines of a history, one for each time a file is projected. -/
def outlines (steps : List Step) : List Outline := steps.filterMap (·.change.outline?)

/-- A history of files with plain outlines that agree about what is a class and what a module. -/
structure Orderly (steps : List Step) : Prop where
  files : ∀ step ∈ steps, step.change.path?.isSome = true
  plain : ∀ o ∈ outlines steps, Plain o
  compatible : (outlines steps).Pairwise Compatible

/-- What a file says with nothing built before it. -/
def ownStatements (path : String) (category : Category) (o : Outline) : List Statement :=
  fileStatements path category o (fun _ => false) fun _ => false

/-! ## Statements without a state -/

variable {path : String} {category : Category} {o : Outline} {built : Identity → Bool}

theorem nodeOf?_container {d : Declaration} {k : NodeKind} {name : String} (h : nodeOf? d = some (k, name))
    (hk : k = .classDecl ∨ k = .moduleDecl) :
    d.name = name ∧ (k = .classDecl → d.kind = .classDecl) ∧ (k = .moduleDecl → d.kind = .moduleDecl) := by
  unfold nodeOf? at h
  cases hd : d.kind <;> rw [hd] at h <;> simp only [Option.some.injEq, Prod.mk.injEq, reduceCtorEq] at h <;>
    obtain ⟨rfl, rfl⟩ := h <;> simp_all

/-- The owner of a declaration is found among the declarations before it, whatever else is built. -/
theorem ownerOf?_eq {before : List Declaration} {d : Declaration} {b b' : Identity → Bool}
    (hb : ∀ i, (∃ e ∈ before, nodeOf? e = some i) → b i = true ∧ b' i = true)
    (hclass : ∀ e ∈ before, e.kind = .moduleDecl → b (.classDecl, e.name) = b' (.classDecl, e.name))
    (hnested : ∀ name, d.enclosing = some name → ∃ e ∈ before, e.kind.isContainer = true ∧ e.name = name) :
    ownerOf? b d = ownerOf? b' d := by
  unfold ownerOf?
  cases henc : d.enclosing with
  | none => rfl
  | some name =>
      obtain ⟨e, he, hcontainer, rfl⟩ := hnested name henc
      rw [Option.bind_some, Option.bind_some]
      cases hk : e.kind with
      | classDecl =>
          obtain ⟨h, h'⟩ := hb (.classDecl, e.name) ⟨e, he, by simp [nodeOf?, hk]⟩
          rw [if_pos h, if_pos h']
      | moduleDecl =>
          obtain ⟨h, h'⟩ := hb (.moduleDecl, e.name) ⟨e, he, by simp [nodeOf?, hk]⟩
          rw [hclass e he hk, if_pos h, if_pos h']
      | _ => simp [hk, SymbolKind.isContainer] at hcontainer

/-- Declarations say the same over two states that agree on the modules among them not being classes. -/
theorem declarationsStatements_congr (before : List Declaration) {ds : List Declaration} {b b' : Identity → Bool}
    (hb : ∀ i, (∃ e ∈ before, nodeOf? e = some i) → b i = true ∧ b' i = true)
    (hclass : ∀ e ∈ before ++ ds, e.kind = .moduleDecl → b (.classDecl, e.name) = b' (.classDecl, e.name))
    (hnested : ∀ before' d after, before ++ ds = before' ++ d :: after → ∀ name, d.enclosing = some name →
      ∃ e ∈ before', e.kind.isContainer = true ∧ e.name = name) :
    declarationsStatements path b ds = declarationsStatements path b' ds := by
  induction ds generalizing before b b' with
  | nil => rfl
  | cons d rest ih =>
      have howner : ownerOf? b d = ownerOf? b' d :=
        ownerOf?_eq hb (fun e he => hclass e (List.mem_append_left _ he)) (hnested before d rest rfl)
      have hsame : declarationStatements path b d = declarationStatements path b' d := by
        simp only [declarationStatements, howner]
      rw [declarationsStatements, declarationsStatements, hsame]
      congr 1
      have hshift : (before ++ [d]) ++ rest = before ++ d :: rest := by simp
      refine ih (before ++ [d]) ?_ ?_ (by rw [hshift]; exact hnested)
      · rintro i ⟨e, he, hi⟩
        rcases List.mem_append.1 he with he | he
        · obtain ⟨h, h'⟩ := hb i ⟨e, he, hi⟩
          simp [builtWith, h, h']
        · rw [List.mem_singleton] at he
          subst he
          simp [builtWith, hi]
      · intro e he hk
        rw [hshift] at he
        simp only [builtWith, hclass e he hk]

/-- A plain outline says the same in every state that has none of its modules as a class. -/
theorem fileStatements_eq_own (ho : Plain o) {known : String → Bool}
    (hclass : ∀ name, DeclaresAs o .moduleDecl name → built (.classDecl, name) = false) :
    fileStatements path category o built known = ownStatements path category o := by
  have hdecls : declarationsStatements path (fun i => built i || i = (.file, path)) o.declarations =
      declarationsStatements path (fun i => false || i = (.file, path)) o.declarations := by
    refine declarationsStatements_congr [] (by simp) ?_ ho.nested
    intro e he hk
    simp only [hclass e.name ⟨e, he, hk, rfl⟩]
  simp only [ownStatements, fileStatements, structureStatements, hdecls, ho.requires, requireStatements]

/-! ## What is held after a history -/

theorem outlines_append (steps : List Step) (step : Step) :
    outlines (steps ++ [step]) = outlines steps ++ step.change.outline?.toList := by
  rw [outlines, List.filterMap_append, ← outlines]
  congr 1

theorem Orderly.init {steps : List Step} {step : Step} (h : Orderly (steps ++ [step])) : Orderly steps := by
  have houtlines := outlines_append steps step
  refine ⟨fun s hs => h.files s (List.mem_append_left _ hs), ?_, ?_⟩
  · intro o ho
    refine h.plain o ?_
    rw [houtlines]
    exact List.mem_append_left _ ho
  · have hpair := h.compatible
    rw [houtlines, List.pairwise_append] at hpair
    exact hpair.1

/-- The last outline is plain, and agrees with all outlines before it. -/
theorem Orderly.last {steps : List Step} {step : Step} (h : Orderly (steps ++ [step]))
    (ho : step.change.outline? = some o) : Plain o ∧ ∀ o' ∈ outlines steps, Compatible o' o := by
  have houtlines := outlines_append steps step
  rw [ho] at houtlines
  refine ⟨h.plain o (by rw [houtlines]; simp), ?_⟩
  have hpair := h.compatible
  rw [houtlines, List.pairwise_append] at hpair
  exact fun o' ho' => hpair.2.2 o' ho' o (by simp)

/-- The classes built in a run are declared by outlines of the history. -/
def BuildsDeclared (steps : List Step) (s : Session) : Prop :=
  ∀ name, s.cache.isBuilt .classDecl name = true → ∃ o ∈ outlines steps, DeclaresAs o .classDecl name

/-- A file holds exactly the links that its last outline relates. -/
def HoldsOwn (steps : List Step) (s : Session) : Prop :=
  ∀ l path, s.graph.Holds l path ↔
    ∃ category o, said steps path = some (category, o) ∧ Relates (ownStatements path category o) l

theorem isBuilt_opening {step : Step} {s : Session} {k : NodeKind} {key : String}
    (h : (step.opening s).cache.isBuilt k key = true) : s.cache.isBuilt k key = true := by
  unfold Step.opening at h
  split at h
  · exact absurd h (by simp [BuildCache.isBuilt, BuildCache.lookup, NodeIds.get?])
  · exact h

/-- In an orderly history a file says what it says on its own. -/
theorem statements_eq_own {steps : List Step} {step : Step} (h : Orderly (steps ++ [step])) {s : Session}
    (hbuilt : BuildsDeclared steps s) (hc : step.change = .project path category o) :
    step.statements s = ownStatements path category o := by
  obtain ⟨hplain, hcompatible⟩ := h.last (o := o) (by rw [hc]; rfl)
  rw [Step.statements, hc]
  refine fileStatements_eq_own hplain ?_
  intro name hmodule
  by_contra hclass
  rw [Bool.not_eq_false] at hclass
  obtain ⟨o', ho', hdeclares⟩ := hbuilt name (isBuilt_opening hclass)
  exact (hcompatible o' ho' name).1 ⟨hdeclares, hmodule⟩

theorem BuildsDeclared.next {steps : List Step} {s : Session} (hs : s.Sound) {step : Step}
    (hfile : step.change.path?.isSome = true) (h : BuildsDeclared steps s) :
    BuildsDeclared (steps ++ [step]) (step.next s) := by
  intro name hname
  have hfinish : (step.finish s).cache.isBuilt .classDecl name = true := by
    rw [BuildCache.isBuilt, ← BuildCache.lookup_commit]
    exact hname
  rw [outlines_append]
  rcases isBuilt_unit (hs.start step) (previous_sublist _ _) hfinish with hold | hnew
  · obtain ⟨o, ho, hdeclares⟩ := h name (isBuilt_opening hold)
    exact ⟨o, List.mem_append_left _ ho, hdeclares⟩
  · cases hc : step.change with
    | project p category o =>
        rw [Step.statements, hc] at hnew
        rcases (declares_fileStatements _).1 hnew with h | ⟨d, hd, hi⟩
        · exact absurd (congrArg Prod.fst h) (by simp)
        · obtain ⟨hname, hkind, _⟩ := nodeOf?_container hi (Or.inl rfl)
          exact ⟨o, by simp [Change.outline?], d, hd, hkind rfl, hname⟩
    | retract p =>
        rw [Step.statements, hc] at hnew
        obtain ⟨n, hn, _⟩ := hnew
        exact absurd hn (by simp [Change.statements])
    | projectSchema _ => exact absurd hfile (by simp [hc, Change.path?])
    | retractSchema => exact absurd hfile (by simp [hc, Change.path?])

theorem HoldsOwn.next {steps : List Step} {s : Session} (hs : s.Sound) {step : Step}
    (horderly : Orderly (steps ++ [step])) (hbuilt : BuildsDeclared steps s) (h : HoldsOwn steps s) :
    HoldsOwn (steps ++ [step]) (step.next s) := by
  intro l x
  have hunit := holds_unit (hs.start step) (previous_sublist step.change s.graph) step.catalog (step.statements s) l x
  change (step.finish s).graph.Holds l x ↔ _
  rw [Step.finish, hunit, h l x, said_append]
  have hfile := horderly.files step (by simp)
  cases hc : step.change with
  | project p category o =>
      rw [statements_eq_own horderly hbuilt hc]
      by_cases hx : x = p
      · subst hx
        simp [Change.origin, Change.revise]
      · have hp : ¬ p = x := fun h => hx h.symm
        simp [Change.origin, Change.revise, hx, hp]
  | retract p =>
      have hnone : ¬ Relates (step.statements s) l := by
        rw [Step.statements, hc]
        rintro ⟨_, _, hmem⟩
        exact absurd hmem (by simp [Change.statements])
      by_cases hx : x = p
      · subst hx
        simp [Change.origin, Change.revise, hnone]
      · have hp : ¬ p = x := fun h => hx h.symm
        simp [Change.origin, Change.revise, hx, hp]
  | projectSchema _ => exact absurd hfile (by simp [hc, Change.path?])
  | retractSchema => exact absurd hfile (by simp [hc, Change.path?])

/-- After an orderly history every file holds what its last outline relates, and nothing else is held. -/
theorem holdsOwn_of_orderly (steps : List Step) :
    ∃ s, replay steps {} = .ok s ∧ s.Sound ∧ (Orderly steps → HoldsOwn steps s) := by
  have hall := replay_induction (motive := fun steps s =>
    Orderly steps → BuildsDeclared steps s ∧ HoldsOwn steps s) ?_ ?_ steps
  · obtain ⟨s, hs, hsound, h⟩ := hall
    exact ⟨s, hs, hsound, fun horderly => (h horderly).2⟩
  · intro _
    refine ⟨fun name h => absurd h (by simp [BuildCache.isBuilt, BuildCache.lookup, NodeIds.get?]), fun l path => ?_⟩
    constructor
    · rintro ⟨e, he, _⟩
      exact absurd he (by simp)
    · rintro ⟨_, _, h, _⟩
      exact absurd h (by simp)
  · intro steps s hsound _ ih step horderly
    obtain ⟨hbuilt, hholds⟩ := ih horderly.init
    have hfile := horderly.files step (by simp)
    exact ⟨hbuilt.next hsound hfile, hholds.next hsound horderly hbuilt⟩

/-! ## Rebuilding from what is left -/

/-- A history that projects what is left of another, each file once. -/
structure Rebuilds (rebuild steps : List Step) : Prop where
  projects : ∀ step ∈ rebuild, ∃ path category o, step.change = .project path category o
  once : (rebuild.map (·.change.origin)).Nodup
  said_eq : ∀ path, said rebuild path = said steps path

/-- A file that is projected once, and never taken back, is left with what it said. -/
theorem said_of_once {steps : List Step}
    (hprojects : ∀ step ∈ steps, ∃ path category o, step.change = .project path category o)
    (honce : (steps.map (·.change.origin)).Nodup) {step : Step} (hstep : step ∈ steps)
    (hc : step.change = .project path category o) : said steps path = some (category, o) := by
  induction steps using List.reverseRecOn with
  | nil => exact absurd hstep (by simp)
  | append_singleton steps last ih =>
      rw [said_append]
      rw [List.map_append, List.nodup_append] at honce
      rcases List.mem_append.1 hstep with hmem | hmem
      · have hsaid := ih (fun s hs => hprojects s (List.mem_append_left _ hs)) honce.1 hmem
        obtain ⟨p, category', o', hlast⟩ := hprojects last (by simp)
        have hne : p ≠ path := by
          have h := honce.2.2 step.change.origin (List.mem_map_of_mem hmem) last.change.origin (by simp)
          rw [hc, hlast] at h
          exact fun heq => h heq.symm
        rw [hlast, Change.revise, if_neg hne, hsaid]
      · rw [List.mem_singleton] at hmem
        rw [← hmem, hc, Change.revise, if_pos rfl]

theorem Compatible.symm {o o' : Outline} (h : Compatible o o') : Compatible o' o :=
  fun name => ⟨fun ⟨hc, hm⟩ => (h name).2 ⟨hm, hc⟩, fun ⟨hm, hc⟩ => (h name).1 ⟨hc, hm⟩⟩

/-- In an orderly history the outlines of two different steps agree. -/
theorem Orderly.compatible_of_ne {steps : List Step} (h : Orderly steps) {a b : Step} (ha : a ∈ steps) (hb : b ∈ steps)
    (hne : a ≠ b) {o o' : Outline} (ho : a.change.outline? = some o) (ho' : b.change.outline? = some o') :
    Compatible o o' := by
  have hpair := List.pairwise_filterMap.1 h.compatible
  have : Std.Symm fun a b : Step => ∀ o, a.change.outline? = some o → ∀ o', b.change.outline? = some o' →
      Compatible o o' := ⟨fun _ _ h o ho o' ho' => (h o' ho' o ho).symm⟩
  exact hpair.forall ha hb hne o ho o' ho'

/-- A rebuild takes its steps, the sessions and catalogs apart, from the history. -/
theorem Rebuilds.exists_step {rebuild steps : List Step} (h : Rebuilds rebuild steps) {step : Step}
    (hstep : step ∈ rebuild) : ∃ step' ∈ steps, step'.change = step.change := by
  obtain ⟨path, category, o, hc⟩ := h.projects step hstep
  have hsaid := said_of_once h.projects h.once hstep hc
  rw [h.said_eq] at hsaid
  obtain ⟨step', hmem, hc'⟩ := exists_step_of_said hsaid
  exact ⟨step', hmem, hc'.trans hc.symm⟩

theorem Rebuilds.orderly {rebuild steps : List Step} (h : Rebuilds rebuild steps) (hsteps : Orderly steps) :
    Orderly rebuild := by
  refine ⟨?_, ?_, ?_⟩
  · intro step hstep
    obtain ⟨path, category, o, hc⟩ := h.projects step hstep
    rw [hc]
    rfl
  · intro o ho
    obtain ⟨step, hstep, ho⟩ := List.mem_filterMap.1 ho
    obtain ⟨step', hmem, hc⟩ := h.exists_step hstep
    refine hsteps.plain o (List.mem_filterMap.2 ⟨step', hmem, ?_⟩)
    rw [hc]
    exact ho
  · refine List.pairwise_filterMap.2 ?_
    have honce := List.pairwise_map.1 h.once
    refine honce.imp_of_mem ?_
    intro a b ha hb hne o ho o' ho'
    obtain ⟨a', ha', hca⟩ := h.exists_step ha
    obtain ⟨b', hb', hcb⟩ := h.exists_step hb
    refine hsteps.compatible_of_ne ha' hb' ?_ (by rw [hca]; exact ho) (by rw [hcb]; exact ho')
    rintro rfl
    rw [← hca, ← hcb] at hne
    exact hne rfl

/-- An orderly history ends with the same links, held by the same files, as a rebuild from what is left of it, whatever
the order of the rebuild and wherever sessions begin. -/
theorem holdings_eq_rebuild {steps rebuild : List Step} (hsteps : Orderly steps) (hrebuild : Rebuilds rebuild steps) :
    ∃ s s', replay steps {} = .ok s ∧ replay rebuild {} = .ok s' ∧
      ∀ l path, (l, path) ∈ s.graph.holdings ↔ (l, path) ∈ s'.graph.holdings := by
  obtain ⟨s, hs, hsound, hown⟩ := holdsOwn_of_orderly steps
  obtain ⟨s', hs', hsound', hown'⟩ := holdsOwn_of_orderly rebuild
  refine ⟨s, s', hs, hs', ?_⟩
  intro l path
  rw [Graph.mem_holdings hsound.graph, Graph.mem_holdings hsound'.graph, hown hsteps l path,
    hown' (hrebuild.orderly hsteps) l path, hrebuild.said_eq]

/-- A class that is reopened with one method. -/
def reopening (method : String) : Outline :=
  { declarations := [
      { name := "User", kind := .classDecl, startLine := 1, endLine := 5 },
      { name := method, kind := .method, enclosing := some "User", startLine := 2, endLine := 4 }] }

theorem plain_reopening (method : String) : Plain (reopening method) := by
  refine ⟨rfl, ?_⟩
  intro before d after h name hname
  match before with
  | [] =>
      rw [List.nil_append, reopening, List.cons.injEq] at h
      rw [← h.1] at hname
      exact absurd hname (by simp)
  | [e] =>
      rw [reopening, List.cons_append, List.cons.injEq, List.nil_append, List.cons.injEq] at h
      obtain ⟨rfl, rfl, _⟩ := h
      exact ⟨_, List.mem_singleton_self _, rfl, Option.some.inj hname⟩
  | _ :: _ :: _ => simp [reopening] at h

theorem compatible_reopening (method method' : String) : Compatible (reopening method) (reopening method') := by
  have hmodule : ∀ m name, ¬ DeclaresAs (reopening m) .moduleDecl name := by
    rintro m name ⟨d, hd, hk, _⟩
    simp only [reopening, List.mem_cons, List.not_mem_nil, or_false] at hd
    rcases hd with rfl | rfl <;> exact absurd hk (by simp)
  exact fun name => ⟨fun h => hmodule method' name h.2, fun h => hmodule method name h.1⟩

/-- Two files reopen a class. One of them is changed in a new session, and a third one comes and goes. -/
def reopenings : List Step := [
  { change := .project "user.rb" .model (reopening "name") },
  { change := .project "user_extra.rb" .model (reopening "tag") },
  { change := .project "user_old.rb" .model (reopening "name") },
  { change := .retract "user_old.rb", renewed := true },
  { change := .project "user.rb" .model (reopening "title") }]

/-- What is left of them, in another order. -/
def reopeningsLeft : List Step := [
  { change := .project "user_extra.rb" .model (reopening "tag") },
  { change := .project "user.rb" .model (reopening "title") }]

theorem holdings_eq_rebuild_reopenings :
    Orderly reopenings ∧ Rebuilds reopeningsLeft reopenings ∧
      ∃ s s', replay reopenings {} = .ok s ∧ replay reopeningsLeft {} = .ok s' ∧
        ∀ l path, (l, path) ∈ s.graph.holdings ↔ (l, path) ∈ s'.graph.holdings := by
  have hsteps : Orderly reopenings := by
    refine ⟨by decide, ?_, ?_⟩
    · intro o ho
      simp only [outlines, reopenings, List.filterMap_cons, List.filterMap_nil, Change.outline?, List.mem_cons,
        List.not_mem_nil, or_false] at ho
      rcases ho with rfl | rfl | rfl | rfl <;> exact plain_reopening _
    · simp only [outlines, reopenings, List.filterMap_cons, List.filterMap_nil, Change.outline?]
      simp [compatible_reopening]
  have hrebuild : Rebuilds reopeningsLeft reopenings := by
    refine ⟨?_, by decide, ?_⟩
    · intro step hstep
      simp only [reopeningsLeft, List.mem_cons, List.not_mem_nil, or_false] at hstep
      rcases hstep with rfl | rfl <;> exact ⟨_, _, _, rfl⟩
    · intro path
      simp only [said, reopeningsLeft, reopenings, List.foldl_cons, List.foldl_nil, Change.revise]
      by_cases huser : "user.rb" = path
      · simp only [if_pos huser]
      · by_cases hold : "user_old.rb" = path
        · subst hold
          rfl
        · simp only [if_neg huser, if_neg hold]
  exact ⟨hsteps, hrebuild, holdings_eq_rebuild hsteps hrebuild⟩

end CodeAtlas.Projection
