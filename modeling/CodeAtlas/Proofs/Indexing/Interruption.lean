import CodeAtlas.Indexing.Unit
import CodeAtlas.Proofs.Projection.History
/-!
# Units that fail

The store can fail under a unit at any point: while it writes, while it lets go of edges, while it deals with its
nodes, or when it is committed. `Stage` is every state that a unit passes through. A unit that fails at a stage leaves
the index as it was, but has recorded and forgotten nodes in the cache until then. Records are pending and are dropped;
what was forgotten stays forgotten. So after any units, carried out or failed, the cache tells the truth about the
graph (`lookup_names_node`), and the next unit is refused no edge.
-/

namespace CodeAtlas

/-- What `c'` has committed, `c` has committed too. -/
def BuildCache.CommittedIn (c' c : BuildCache) : Prop :=
  ∀ k key id, c'.committed.get? k key = some id → c.committed.get? k key = some id

namespace BuildCache.CommittedIn

variable {c c' : BuildCache}

theorem refl (c : BuildCache) : c.CommittedIn c := fun _ _ _ h => h

theorem record (h : c'.CommittedIn c) (k : NodeKind) (key : String) (id : Int) : (c'.record k key id).CommittedIn c := h

theorem forget (h : c'.CommittedIn c) (k : NodeKind) (key : String) : (c'.forget k key).CommittedIn c := by
  intro k' key' id hget
  change (c'.committed.erase k key).get? k' key' = some id at hget
  rw [NodeIds.get?_erase] at hget
  split at hget
  · exact absurd hget (by simp)
  · exact h k' key' id hget

/-- Once what is pending is dropped, only what was committed before is left. -/
theorem valid_rollback (h : c'.CommittedIn c) {g : Graph} (hc : c.Valid g) : c'.rollback.Valid g :=
  ⟨fun k key id hget => hc.1 k key id (h k key id hget), (valid_empty g).2⟩

end BuildCache.CommittedIn

namespace Projection

/-- The states that a unit passes through. -/
inductive Stage (c : Catalog) (s : Session) (change : Change) : Work → Prop
  | writing (said rest : List Statement) (all : change.statements s = said ++ rest) :
      Stage c s change (applyAll change.origin (start change.origin s.graph s.cache) said)
  | releasing (w : Work)
      (written : w = applyAll change.origin (start change.origin s.graph s.cache) (change.statements s))
      (released rest : List Int) (all : w.stale = released ++ rest) :
      Stage c s change { w with graph := w.graph.releaseAll released change.origin }
  | settling (w : Work)
      (written : w = applyAll change.origin (start change.origin s.graph s.cache) (change.statements s))
      (settled rest : List Node) (all : change.previous s.graph = settled ++ rest) :
      Stage c s change (settleAll c change.origin settled (releaseStale change.origin w))

variable {c : Catalog} {s : Session} {change : Change}

/-- The last stage of a unit is what it leaves. -/
theorem exists_stage_run_eq (hs : s.Sound) (c : Catalog) (change : Change) :
    ∃ w, Stage c s change w ∧ change.run c s = ⟨w.graph, w.cache, .ok w.stats⟩ :=
  ⟨_, .settling _ rfl (change.previous s.graph) [] (List.append_nil _).symm, run_eq hs c change⟩

theorem committedIn_applyAll {cache : BuildCache} {o : String} {w : Work} (h : w.cache.CommittedIn cache)
    (statements : List Statement) : (applyAll o w statements).cache.CommittedIn cache := by
  induction statements generalizing w with
  | nil => exact h
  | cons s rest ih =>
      refine ih ?_
      cases s with
      | declare n => exact h.record n.kind n.key _
      | relate l locations metadata => exact h

theorem committedIn_settle {cache : BuildCache} {w : Work} (h : w.cache.CommittedIn cache) (c : Catalog) (o : String)
    (node : Node) : (settle c o node w).cache.CommittedIn cache := by
  unfold settle
  split
  · exact h
  · split
    · exact h
    · dsimp only
      split
      · exact h.forget node.kind node.key
      · exact h.forget node.kind node.key

theorem committedIn_settleAll {cache : BuildCache} {w : Work} (h : w.cache.CommittedIn cache) (c : Catalog) (o : String)
    (nodes : List Node) : (settleAll c o nodes w).cache.CommittedIn cache := by
  induction nodes generalizing w with
  | nil => exact h
  | cons node rest ih => exact ih (committedIn_settle h c o node)

theorem Stage.committedIn {w : Work} (h : Stage c s change w) : w.cache.CommittedIn s.cache := by
  have hstart : (start change.origin s.graph s.cache).cache.CommittedIn s.cache := .refl s.cache
  cases h with
  | writing said => exact committedIn_applyAll hstart said
  | releasing w written =>
      subst written
      exact committedIn_applyAll hstart _
  | settling w written settled =>
      subst written
      have hreleased : (releaseStale change.origin (applyAll change.origin (start change.origin s.graph s.cache)
          (change.statements s))).cache.CommittedIn s.cache := committedIn_applyAll hstart _
      exact committedIn_settleAll hreleased c change.origin settled

end Projection

open Projection

namespace Desk

/-- The session of a desk. -/
def session (d : Desk) : Session := ⟨d.store.graph, d.cache⟩

/-- What becomes of a desk when a projection on it ends with a result, where `c` is the catalog that the unit leaves. -/
def conclude (d : Desk) (c : Catalog) (result : Projection.Result) : Desk :=
  (d.settle (fun graph => { d.store with catalog := c, graph := graph }) result).1

/-- A desk that comes about by units on an empty index, each of them carried out or failing at some stage. -/
inductive Worked : Desk → Prop
  | empty : Worked { store := {} }
  | unit (d : Desk) (before : Worked d) (c : Catalog) (change : Change) :
      Worked (d.conclude c (change.run c d.session))
  | failure (d : Desk) (before : Worked d) (c : Catalog) (change : Change) (w : Work) (stage : Stage c d.session change w)
      (e : Error) : Worked (d.conclude c ⟨w.graph, w.cache, .error e⟩)

theorem Worked.sound {d : Desk} (h : d.Worked) : d.session.Sound := by
  induction h with
  | empty => exact sound_empty
  | unit d _ c change ih =>
      have hnext := ih.next { change := change, catalog := c }
      have hsame : (d.conclude c (change.run c d.session)).session =
          Step.next { change := change, catalog := c } d.session := by
        rw [run_eq ih]
        rfl
      rw [hsame]
      exact hnext
  | failure d _ c change w stage e ih => exact ⟨ih.graph, stage.committedIn.valid_rollback ih.cache, ih.held⟩

/-- After any units on an empty index, each carried out and committed or failed at some stage and rolled back, what the
cache gives for a kind and key is the id of the node with that kind and key; and no unit is refused an edge. -/
theorem lookup_names_node {d : Desk} (h : d.Worked) :
    (∀ kind key id, d.cache.lookup kind key = some id →
      ∃ n ∈ d.store.graph.nodes, n.id = id ∧ n.kind = kind ∧ n.key = key) ∧
    ∀ (c : Catalog) (change : Change), ∃ stats, (change.run c d.session).outcome = .ok stats := by
  have hs := h.sound
  constructor
  · intro kind key id hlookup
    obtain ⟨n, hn, hid, hi⟩ := hs.cache.lookup hlookup
    exact ⟨n, hn, hid, congrArg Prod.fst hi, congrArg Prod.snd hi⟩
  · intro c change
    obtain ⟨w, _, hrun⟩ := exists_stage_run_eq hs c change
    rw [hrun]
    exact ⟨_, rfl⟩

/-- An outline with one class. -/
def declaringClass (name : String) (superclass : Option String) : Outline :=
  { declarations := [{ name := name, kind := .classDecl, startLine := 1, endLine := 2, superclass := superclass }] }

/-- The desk after a class `A` was written. -/
def written : Desk :=
  let d : Desk := { store := {} }
  d.conclude {} ((Change.project "a.rb" .model (declaringClass "A" none)).run {} d.session)

/-- The unit that is to take the file back, when it has dealt with all its nodes. -/
def withdrawing : Work :=
  settleAll {} "a.rb" (written.store.graph.anchoredTo "a.rb")
    (releaseStale "a.rb" (start "a.rb" written.store.graph written.cache))

/-- The desk after that unit could not be committed, and a class that extends `A` was written. -/
def recovered : Desk :=
  let d := written.conclude {} ⟨withdrawing.graph, withdrawing.cache, .error (.io "disk full")⟩
  d.conclude {} ((Change.project "b.rb" .model (declaringClass "B" (some "A"))).run {} d.session)

theorem worked_recovered : recovered.Worked := by
  have hwritten : written.Worked := .unit _ .empty {} _
  have hstage : Stage {} written.session (.retract "a.rb") withdrawing :=
    .settling _ rfl (written.store.graph.anchoredTo "a.rb") [] (List.append_nil _).symm
  exact .unit _ (.failure written hwritten {} _ withdrawing hstage (.io "disk full")) {} _

set_option maxRecDepth 100000 in
theorem lookup_names_node_recovered :
    (withdrawing.graph.nodes = [] ∧ recovered.cache.lookup .classDecl "A" = none ∧
      ∃ n ∈ recovered.store.graph.nodes, n.kind = .classDecl ∧ n.key = "A" ∧ n.id = 2) ∧
    (recovered.cache.lookup .classDecl "B" = some 4 ∧
      ∃ n ∈ recovered.store.graph.nodes, n.id = 4 ∧ n.kind = .classDecl ∧ n.key = "B") ∧
    ∃ stats, ((Change.retract "a.rb").run {} recovered.session).outcome = .ok stats := by
  obtain ⟨hnames, hruns⟩ := lookup_names_node worked_recovered
  have hB : recovered.cache.lookup .classDecl "B" = some 4 := by decide +kernel
  exact ⟨by decide +kernel, ⟨hB, hnames _ _ _ hB⟩, hruns {} (.retract "a.rb")⟩

end Desk

end CodeAtlas
