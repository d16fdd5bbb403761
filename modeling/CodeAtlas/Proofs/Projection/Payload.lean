import CodeAtlas.Proofs.Projection.History
/-!
# Whose lines an edge points to

The locations of an edge are replaced by every write, while the writers gather as its holders. So all locations of an
edge are lines of the file that wrote it last, and they are lines of a holder exactly as long as that file still
states the edge: when it lets go while another file goes on holding the edge, the old lines stay.
-/

namespace CodeAtlas.Projection

/-- A step after a history states a link. -/
def Writes (steps : List Step) (step : Step) (l : Link) : Prop :=
  ∃ s, replay steps {} = .ok s ∧ Relates (step.statements s) l

/-- The file that stated a link last in a history. -/
inductive LastWriter : List Step → Link → String → Prop
  | writes {steps : List Step} {step : Step} {l : Link} {path : String} (file : step.change.path? = some path)
      (writes : Writes steps step l) : LastWriter (steps ++ [step]) l path
  | stays {steps : List Step} {step : Step} {l : Link} {path : String} (before : LastWriter steps l path)
      (silent : ¬ Writes steps step l) : LastWriter (steps ++ [step]) l path

/-- The last change of a file in a history states a link. -/
inductive StillStates : List Step → String → Link → Prop
  | states {steps : List Step} {step : Step} {l : Link} {path : String} (file : step.change.path? = some path)
      (writes : Writes steps step l) : StillStates (steps ++ [step]) path l
  | stays {steps : List Step} {step : Step} {l : Link} {path : String} (before : StillStates steps path l)
      (other : step.change.path? ≠ some path) : StillStates (steps ++ [step]) path l

theorem writes_iff {steps : List Step} {s : Session} (h : replay steps {} = .ok s) (step : Step) (l : Link) :
    Writes steps step l ↔ Relates (step.statements s) l := by
  constructor
  · rintro ⟨s', h', hl⟩
    rw [h, Except.ok.injEq] at h'
    subst h'
    exact hl
  · exact fun hl => ⟨s, h, hl⟩

theorem origin_of_path? {change : Change} {path : String} (h : change.path? = some path) : change.origin = path := by
  cases change <;> simp_all [Change.path?, Change.origin]

/-- A file that is changed states lines of its own only. -/
theorem lines_of_statement {step : Step} {s : Session} {path : String} (hpath : step.change.path? = some path)
    {l : Link} {locations : List String} {metadata : Json}
    (h : Statement.relate l locations metadata ∈ step.statements s) :
    ∀ location ∈ locations, ∃ line, location = lineOf path line := by
  rw [Step.statements] at h
  cases hc : step.change with
  | project p category o =>
      rw [hc] at hpath h
      simp only [Change.path?, Option.some.injEq] at hpath
      subst hpath
      intro location hlocation
      cases fileLink_of_mem h with
      | defines d => exact ⟨d.startLine, List.mem_singleton.1 hlocation⟩
      | owns d => exact ⟨d.startLine, List.mem_singleton.1 hlocation⟩
      | inherits d => exact ⟨d.startLine, List.mem_singleton.1 hlocation⟩
      | mixes => exact absurd hlocation (by simp)
      | requires => exact absurd hlocation (by simp)
      | associates a =>
          rw [Option.mem_toList, Option.map_eq_some_iff] at hlocation
          obtain ⟨line, _, rfl⟩ := hlocation
          exact ⟨line, rfl⟩
  | retract p =>
      rw [hc] at h
      exact absurd h (by simp [Change.statements])
  | projectSchema _ => exact absurd hpath (by simp [hc, Change.path?])
  | retractSchema => exact absurd hpath (by simp [hc, Change.path?])

/-- Every edge was written last by one file, and its locations are lines of that file. -/
def PointsToWriter (steps : List Step) (s : Session) : Prop :=
  ∀ e ∈ s.graph.edges, ∀ l, s.graph.Joins e l →
    ∃ path, LastWriter steps l path ∧ ∀ location ∈ e.locations, ∃ line, location = lineOf path line

theorem PointsToWriter.next {steps : List Step} {s : Session} (hs : s.Sound) (hreplay : replay steps {} = .ok s)
    {step : Step} (hfile : step.change.path?.isSome = true) (h : PointsToWriter steps s) :
    PointsToWriter (steps ++ [step]) (step.next s) := by
  intro e he l hjoin
  obtain ⟨path, hpath⟩ := Option.isSome_iff_exists.1 hfile
  rcases mem_edges_unit (hs.start step) (previous_sublist _ _) he hjoin with
    ⟨metadata, hmem⟩ | ⟨hsilent, e₀, he₀, hjoin₀, hsame⟩
  · refine ⟨path, .writes hpath ((writes_iff hreplay step l).2 ⟨_, metadata, hmem⟩), ?_⟩
    exact lines_of_statement hpath hmem
  · obtain ⟨writer, hwriter, hlines⟩ := h e₀ he₀ l hjoin₀
    rw [hsame] at hlines
    exact ⟨writer, .stays hwriter fun hw => hsilent ((writes_iff hreplay step l).1 hw), hlines⟩

/-- A file holds exactly the links that its last change states. -/
def HoldsStated (steps : List Step) (s : Session) : Prop :=
  ∀ l path, s.graph.Holds l path ↔ StillStates steps path l

theorem stillStates_append {steps : List Step} {step : Step} {l : Link} {path : String} :
    StillStates (steps ++ [step]) path l ↔
      (step.change.path? = some path ∧ Writes steps step l) ∨
        (step.change.path? ≠ some path ∧ StillStates steps path l) := by
  constructor
  · intro h
    generalize hall : steps ++ [step] = all at h
    cases h with
    | states file writes =>
        obtain ⟨rfl, hlast⟩ := List.append_inj' hall rfl
        rw [List.cons.injEq] at hlast
        obtain ⟨rfl, _⟩ := hlast
        exact Or.inl ⟨file, writes⟩
    | stays before other =>
        obtain ⟨rfl, hlast⟩ := List.append_inj' hall rfl
        rw [List.cons.injEq] at hlast
        obtain ⟨rfl, _⟩ := hlast
        exact Or.inr ⟨other, before⟩
  · rintro (⟨file, writes⟩ | ⟨other, before⟩)
    · exact .states file writes
    · exact .stays before other

theorem HoldsStated.next {steps : List Step} {s : Session} (hs : s.Sound) (hreplay : replay steps {} = .ok s)
    {step : Step} (hfile : step.change.path?.isSome = true) (h : HoldsStated steps s) :
    HoldsStated (steps ++ [step]) (step.next s) := by
  intro l x
  obtain ⟨path, hpath⟩ := Option.isSome_iff_exists.1 hfile
  have hunit := holds_unit (hs.start step) (previous_sublist step.change s.graph) step.catalog (step.statements s) l x
  change (step.finish s).graph.Holds l x ↔ _
  rw [Step.finish, hunit, h l x, stillStates_append, writes_iff hreplay, hpath, origin_of_path? hpath]
  simp only [Option.some.injEq, ne_eq, eq_comm (a := path)]
  exact or_comm

theorem not_stillStates_nil (path : String) (l : Link) : ¬ StillStates [] path l := by
  intro h
  generalize hnil : ([] : List Step) = steps at h
  cases h with
  | states => exact absurd hnil (by simp)
  | stays => exact absurd hnil (by simp)

/-- Every history of files ends with edges that point to their last writers and are held by those who state them. -/
theorem exists_replay_pointsToWriter (steps : List Step) (hfiles : ∀ step ∈ steps, step.change.path?.isSome = true) :
    ∃ s, replay steps {} = .ok s ∧ s.Sound ∧ PointsToWriter steps s ∧ HoldsStated steps s := by
  have hall := replay_induction (motive := fun steps s =>
    (∀ step ∈ steps, step.change.path?.isSome = true) → PointsToWriter steps s ∧ HoldsStated steps s) ?_ ?_ steps
  · obtain ⟨s, hs, hsound, h⟩ := hall
    exact ⟨s, hs, hsound, h hfiles⟩
  · intro _
    refine ⟨fun e he => absurd he (by simp), fun l path => ?_⟩
    constructor
    · rintro ⟨e, he, _⟩
      exact absurd he (by simp)
    · intro h
      exact absurd h (not_stillStates_nil path l)
  · intro steps s hsound hreplay ih step hfiles
    obtain ⟨hpoints, hholds⟩ := ih fun s' hs' => hfiles s' (List.mem_append_left _ hs')
    have hfile := hfiles step (by simp)
    exact ⟨hpoints.next hsound hreplay hfile, hholds.next hsound hreplay hfile⟩

/-- Lines of one file are lines of a holder exactly if the file is a holder, unless there are none. -/
theorem lines_of_holder_iff {locations holders : List String} {path : String}
    (hlines : ∀ location ∈ locations, ∃ line, location = lineOf path line) :
    (∀ location ∈ locations, ∃ holder ∈ holders, ∃ line, location = lineOf holder line) ↔
      locations = [] ∨ path ∈ holders := by
  constructor
  · intro h
    cases locations with
    | nil => exact Or.inl rfl
    | cons location rest =>
        obtain ⟨line, hline⟩ := hlines location List.mem_cons_self
        obtain ⟨holder, hheld, line', hline'⟩ := h location List.mem_cons_self
        rw [hline] at hline'
        rw [path_eq_of_lineOf_eq hline']
        exact Or.inr hheld
  · rintro (rfl | h)
    · exact fun _ hmem => absurd hmem (by simp)
    · intro location hmem
      exact ⟨path, h, hlines location hmem⟩

/-- After every history of files, each edge points to lines of the file that stated its link last, and these are lines
of a holder exactly if that file still states the link. -/
theorem locations_of_lastWriter (steps : List Step) (hfiles : ∀ step ∈ steps, step.change.path?.isSome = true) :
    ∃ s, replay steps {} = .ok s ∧ ∀ e ∈ s.graph.edges, ∃ l path,
      s.graph.Joins e l ∧ LastWriter steps l path ∧
      (∀ location ∈ e.locations, ∃ line, location = lineOf path line) ∧
      ((∀ location ∈ e.locations, ∃ holder ∈ e.holders, ∃ line, location = lineOf holder line) ↔
        e.locations = [] ∨ StillStates steps path l) := by
  obtain ⟨s, hs, hsound, hpoints, hholds⟩ := exists_replay_pointsToWriter steps hfiles
  refine ⟨s, hs, ?_⟩
  intro e he
  obtain ⟨l, hjoin⟩ := hsound.graph.exists_joins he
  obtain ⟨path, hwriter, hlines⟩ := hpoints e he l hjoin
  refine ⟨l, path, hjoin, hwriter, hlines, ?_⟩
  have hholder : path ∈ e.holders ↔ StillStates steps path l := by
    rw [← hholds l path]
    constructor
    · exact fun h => ⟨e, he, hjoin, h⟩
    · rintro ⟨e', he', hjoin', h⟩
      rw [hjoin.edge_eq hsound.graph he he' hjoin']
      exact h
  rw [← hholder]
  exact lines_of_holder_iff hlines

/-- A class with a superclass, declared at a line. -/
def extending (line : Nat) : Outline :=
  { declarations := [
      { name := "A", kind := .classDecl, startLine := line, endLine := line + 1, superclass := some "B" }] }

/-- Two files state the same edge, and the second lets go. -/
def lettingGo : List Step := [
  { change := .project "a.rb" .model (extending 1) },
  { change := .project "b.rb" .model (extending 5) },
  { change := .retract "b.rb" }]

theorem locations_of_lettingGo :
    (∀ step ∈ lettingGo, step.change.path?.isSome = true) ∧
    ∃ s, replay lettingGo {} = .ok s ∧ ∀ e ∈ s.graph.edges, ∃ l path,
      s.graph.Joins e l ∧ LastWriter lettingGo l path ∧
      (∀ location ∈ e.locations, ∃ line, location = lineOf path line) ∧
      ((∀ location ∈ e.locations, ∃ holder ∈ e.holders, ∃ line, location = lineOf holder line) ↔
        e.locations = [] ∨ StillStates lettingGo path l) :=
  ⟨by decide, locations_of_lastWriter lettingGo (by decide)⟩

/-- The locations and the holders of the edges at the end of a history. -/
def payloads (steps : List Step) : List (List String × List String) :=
  match replay steps {} with
  | .ok s => s.graph.edges.map fun e => (e.locations, e.holders)
  | .error _ => []

set_option maxRecDepth 10000 in
/-- A file that has let go of an edge can leave its line behind. -/
theorem exists_location_of_no_holder :
    ¬ ∀ steps : List Step, (∀ step ∈ steps, step.change.path?.isSome = true) →
      ∀ s, replay steps {} = .ok s → ∀ e ∈ s.graph.edges, ∀ location ∈ e.locations,
        ∃ holder ∈ e.holders, ∃ line, location = lineOf holder line := by
  intro h
  have hleft : ([lineOf "b.rb" 5], ["a.rb"]) ∈ payloads lettingGo := by decide +kernel
  unfold payloads at hleft
  split at hleft
  · next s hs =>
      obtain ⟨e, he, heq⟩ := List.mem_map.1 hleft
      rw [Prod.mk.injEq] at heq
      obtain ⟨holder, hholder, line, hline⟩ := h lettingGo (by decide) s hs e he (lineOf "b.rb" 5) (by simp [heq.1])
      rw [heq.2, List.mem_singleton] at hholder
      have hpath := path_eq_of_lineOf_eq hline
      rw [hholder] at hpath
      exact absurd hpath (by decide)
  · exact absurd hleft (by simp)

end CodeAtlas.Projection
