import CodeAtlas.Proofs.Projection.FileStatements
import CodeAtlas.Proofs.Projection.SchemaStatements
import CodeAtlas.Proofs.Projection.Unit
import Mathlib.Data.List.Induction
/-!
# Histories

A history is a sequence of changes, each committed as a unit: a file or a schema is projected or taken back. A session
goes on from one change to the next, or a new one is begun between any two. `replay` carries out a history; no unit
of it ever fails (`exists_replay`), and what a property needs to hold after every history is that it holds of nothing
and that each unit keeps it (`replay_induction`). `said` is what is left of a history: the last outline of each file
that was not taken back since.
-/

namespace CodeAtlas.Projection

/-- The graph together with the cache of the run that works on it. -/
structure Session where
  graph : Graph := {}
  cache : BuildCache := {}

/-- The cache is right about the graph, which is well-formed, and somebody holds each edge. -/
structure Session.Sound (s : Session) : Prop where
  graph : s.graph.WellFormed
  cache : s.cache.Valid s.graph
  held : s.graph.AllHeld

/-- What a unit is to do. -/
inductive Change where
  | project (path : String) (category : Category) (o : Outline)
  | retract (path : String)
  | projectSchema (s : Schema)
  | retractSchema

namespace Change

/-- The origin that holds what the unit says. -/
def origin : Change → String
  | .project path _ _ => path
  | .retract path => path
  | .projectSchema _ => Schema.origin
  | .retractSchema => Schema.origin

/-- The file that is changed. -/
def path? : Change → Option String
  | .project path _ _ => some path
  | .retract path => some path
  | _ => none

/-- The unit itself. -/
def run (c : Catalog) (s : Session) : Change → Result
  | .project path category o => projectFile c s.graph s.cache path category o
  | .retract path => retractFile c s.graph s.cache path
  | .projectSchema schema => Projection.projectSchema c s.graph s.cache schema
  | .retractSchema => Projection.retractSchema c s.graph s.cache

/-- The nodes that were the unit's own before. -/
def previous (g : Graph) : Change → List Node
  | .project path _ _ => g.anchoredTo path
  | .retract path => g.anchoredTo path
  | .projectSchema _ => g.bySource .fromSchema
  | .retractSchema => g.bySource .fromSchema

/-- What the unit says in a session. -/
def statements (s : Session) : Change → List Statement
  | .project path category o =>
    fileStatements path category o (fun i => s.cache.isBuilt i.1 i.2) fun f => (s.graph.nodeId? .file f).isSome
  | .retract _ => []
  | .projectSchema schema => schemaStatements schema fun c => (s.graph.nodeId? .classDecl c).isSome
  | .retractSchema => []

/-- What a file has said, after the change. -/
def revise (path : String) (held : Option (Category × Outline)) : Change → Option (Category × Outline)
  | .project p category o => if p = path then some (category, o) else held
  | .retract p => if p = path then none else held
  | _ => held

end Change

/-- A change, the catalog that its unit sees, and whether a new session is begun for it. -/
structure Step where
  change : Change
  catalog : Catalog := {}
  renewed : Bool := false

namespace Step

/-- The session in which a step is taken. -/
def opening (step : Step) (s : Session) : Session := if step.renewed then { s with cache := {} } else s

/-- Takes a step: runs its unit and commits it. -/
def take (s : Session) (step : Step) : Outcome Session :=
  let r := step.change.run step.catalog (step.opening s)
  match r.outcome with
  | .ok _ => .ok ⟨r.graph, r.cache.commit⟩
  | .error e => .error e

/-- What a step says. -/
def statements (step : Step) (s : Session) : List Statement := step.change.statements (step.opening s)

/-- The state in which the unit of a step ends. -/
def finish (step : Step) (s : Session) : Work :=
  unit step.catalog step.change.origin s.graph (step.opening s).cache (step.change.previous s.graph)
    (step.statements s)

end Step

/-- Takes steps in turn. -/
def replay (steps : List Step) (s : Session) : Outcome Session := steps.foldlM Step.take s

/-- What a file says at the end of a history. -/
def said (steps : List Step) (path : String) : Option (Category × Outline) :=
  steps.foldl (fun held step => step.change.revise path held) none

/-! ## Units always succeed -/

theorem previous_sublist (change : Change) (g : Graph) : (change.previous g).Sublist g.nodes := by
  cases change <;> exact List.filter_sublist

@[simp] theorem opening_graph (step : Step) (s : Session) : (step.opening s).graph = s.graph := by
  unfold Step.opening
  split <;> rfl

theorem Session.Sound.opening {s : Session} (hs : s.Sound) (step : Step) : (step.opening s).Sound := by
  unfold Step.opening
  split
  · exact ⟨hs.graph, BuildCache.valid_empty _, hs.held⟩
  · exact hs

theorem Session.Sound.start {s : Session} (hs : s.Sound) (step : Step) :
    (start step.change.origin s.graph (step.opening s).cache).Sound := by
  refine ⟨hs.graph, ?_⟩
  have hcache := (hs.opening step).cache
  rw [opening_graph] at hcache
  exact hcache

/-- A unit carries out what it says, and succeeds. -/
theorem run_eq {s : Session} (hs : s.Sound) (c : Catalog) (change : Change) :
    change.run c s =
      ⟨(unit c change.origin s.graph s.cache (change.previous s.graph) (change.statements s)).graph,
        (unit c change.origin s.graph s.cache (change.previous s.graph) (change.statements s)).cache,
        .ok (unit c change.origin s.graph s.cache (change.previous s.graph) (change.statements s)).stats⟩ := by
  have hw : ∀ o, (start o s.graph s.cache).Sound := fun o => ⟨hs.graph, hs.cache⟩
  cases change with
  | project path category o =>
      refine runUnit_eq (says_writeFile (hw path) (fun _ => rfl) ?_ category o)
      intro f
      exact (Graph.nodeId?_isSome_iff hs.graph _ _).symm
  | retract path => exact runUnit_eq (Says.pure path _ ())
  | projectSchema schema =>
      refine runUnit_eq (says_writeSchema (hw Schema.origin) ?_ schema)
      intro c
      exact (Graph.nodeId?_isSome_iff hs.graph _ _).symm
  | retractSchema =>
      have hknown : KnowsClasses (start Schema.origin s.graph s.cache) fun c => (s.graph.nodeId? .classDecl c).isSome :=
        fun c => (Graph.nodeId?_isSome_iff hs.graph _ _).symm
      exact runUnit_eq (says_writeSchema (hw Schema.origin) hknown {})

/-- The session after a step. -/
def Step.next (step : Step) (s : Session) : Session := ⟨(step.finish s).graph, (step.finish s).cache.commit⟩

theorem take_eq {s : Session} (hs : s.Sound) (step : Step) : step.take s = .ok (step.next s) := by
  have hrun := run_eq (hs.opening step) step.catalog step.change
  rw [opening_graph] at hrun
  simp only [Step.take, hrun]
  rfl

theorem sound_finish {s : Session} (hs : s.Sound) (step : Step) : (step.finish s).Sound :=
  sound_unit (hs.start step) (previous_sublist _ _) _ _

theorem Session.Sound.next {s : Session} (hs : s.Sound) (step : Step) : (step.next s).Sound :=
  ⟨(sound_finish hs step).graph, (sound_finish hs step).cache.commit,
    allHeld_unit (hs.start step) (previous_sublist _ _) _ _ hs.held⟩

theorem sound_empty : ({} : Session).Sound :=
  ⟨Graph.wellFormed_empty, BuildCache.valid_empty _, fun _ he => absurd he (by simp)⟩

/-- What holds of nothing and is kept by every unit holds after every history, which succeeds. -/
theorem replay_induction {motive : List Step → Session → Prop} (empty : motive [] {})
    (step : ∀ steps s, s.Sound → replay steps {} = .ok s → motive steps s →
      ∀ step, motive (steps ++ [step]) (step.next s)) (steps : List Step) :
    ∃ s, replay steps {} = .ok s ∧ s.Sound ∧ motive steps s := by
  induction steps using List.reverseRecOn with
  | nil => exact ⟨{}, rfl, sound_empty, empty⟩
  | append_singleton steps last ih =>
      obtain ⟨s, hs, hsound, hm⟩ := ih
      refine ⟨last.next s, ?_, hsound.next last, step steps s hsound hs hm last⟩
      rw [replay, List.foldlM_append]
      rw [replay] at hs
      rw [hs]
      change List.foldlM Step.take s [last] = _
      rw [List.foldlM_cons, take_eq hsound last]
      rfl

/-! ## What is left of a history -/

@[simp] theorem said_nil (path : String) : said [] path = none := rfl

theorem said_append (steps : List Step) (step : Step) (path : String) :
    said (steps ++ [step]) path = step.change.revise path (said steps path) := by
  rw [said, List.foldl_append]
  rfl

/-- A change says nothing new of another file. -/
theorem revise_of_ne {change : Change} {path : String} (h : change.path? ≠ some path)
    (held : Option (Category × Outline)) : change.revise path held = held := by
  cases change with
  | project p category o =>
      rw [Change.revise, if_neg]
      rintro rfl
      exact h rfl
  | retract p =>
      rw [Change.revise, if_neg]
      rintro rfl
      exact h rfl
  | projectSchema _ => rfl
  | retractSchema => rfl

/-- What is left of a file was said by a step of the history. -/
theorem exists_step_of_said {steps : List Step} {path : String} {category : Category} {o : Outline}
    (h : said steps path = some (category, o)) : ∃ step ∈ steps, step.change = .project path category o := by
  induction steps using List.reverseRecOn with
  | nil => exact absurd h (by simp)
  | append_singleton steps last ih =>
      rw [said_append] at h
      by_cases hpath : last.change.path? = some path
      · cases hc : last.change with
        | project p category' o' =>
            rw [hc] at hpath h
            simp only [Change.path?, Option.some.injEq] at hpath
            subst hpath
            simp only [Change.revise, if_true, Option.some.injEq, Prod.mk.injEq] at h
            obtain ⟨rfl, rfl⟩ := h
            exact ⟨last, by simp, hc⟩
        | retract p =>
            rw [hc] at hpath h
            simp only [Change.path?, Option.some.injEq] at hpath
            subst hpath
            exact absurd h (by simp [Change.revise])
        | projectSchema _ => exact absurd hpath (by simp [hc, Change.path?])
        | retractSchema => exact absurd hpath (by simp [hc, Change.path?])
      · rw [revise_of_ne hpath] at h
        obtain ⟨step, hstep, hc⟩ := ih h
        exact ⟨step, List.mem_append_left _ hstep, hc⟩

end CodeAtlas.Projection
