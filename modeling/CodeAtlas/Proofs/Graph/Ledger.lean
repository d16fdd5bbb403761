import CodeAtlas.Proofs.Graph.BreadthFirst
import Mathlib.Data.Finset.Sort
import Mathlib.Data.String.Basic
/-!
# An edge lives as long as it is held

A `Ledger` keeps the holders of every edge as a set and knows nothing of rows: an origin that states an edge joins its
holders, an origin that lets go of it leaves them. An edge is let go of by its id, which is the one that the last statement of
the edge was answered with; an id from before the edge was gone and came back names nothing any more. `Mirrors` ties a ledger
to a graph, every `Move` keeps it, and so whatever the origins do, an edge is there as long as somebody holds it, and the
graph tells its holders in order (`edge_lives_while_held`).
-/

namespace CodeAtlas

/-! ## Holders in order -/

namespace Edge

theorem pairwise_insertHolder (o : String) {holders : List String} (h : holders.Pairwise (· < ·)) :
    (insertHolder o holders).Pairwise (· < ·) := by
  induction holders with
  | nil => exact List.pairwise_singleton _ _
  | cons held rest ih =>
      obtain ⟨hheld, hrest⟩ := List.pairwise_cons.1 h
      unfold insertHolder
      split
      · exact h
      · next hne =>
          split
          · next hlt =>
              refine List.pairwise_cons.2 ⟨List.forall_mem_cons.2 ⟨hlt, ?_⟩, h⟩
              exact fun x hx => lt_trans hlt (hheld x hx)
          · next hge =>
              refine List.pairwise_cons.2 ⟨fun x hx => ?_, ih hrest⟩
              rcases (mem_insertHolder o x rest).1 hx with rfl | hx
              · exact lt_of_le_of_ne (not_lt.1 hge) (Ne.symm hne)
              · exact hheld x hx

/-- The origin on record is one of the holders that are left. -/
theorem exists_origin_of_released {o : String} {e e' : Edge} (h : e.released o = some e') :
    ∃ x ∈ e'.holders, e'.origin = some x := by
  unfold released at h
  split at h
  · exact absurd h (by simp)
  · next first rest _ =>
      rw [Option.some.injEq] at h
      subst h
      exact ⟨first, List.mem_cons_self, rfl⟩

end Edge

namespace Graph

/-! ## Moves and the ledger of their effects -/

/-- What an origin does to edges: it states one, lets go of one, or lets go of all that it holds. -/
inductive Move where
  | state (edge : NewEdge) (origin : String)
  | letGo (id : Int) (origin : String)
  | letAllGo (origin : String)

/-- The edge that a move states goes from a node of the graph to a node of the graph. -/
def Move.Within (g : Graph) : Move → Prop
  | .state edge _ => (∃ m ∈ g.nodes, m.id = edge.source) ∧ ∃ m ∈ g.nodes, m.id = edge.target
  | .letGo _ _ => True
  | .letAllGo _ => True

instance (g : Graph) : (move : Move) → Decidable (move.Within g)
  | .state edge _ =>
    inferInstanceAs (Decidable ((∃ m ∈ g.nodes, m.id = edge.source) ∧ ∃ m ∈ g.nodes, m.id = edge.target))
  | .letGo _ _ => .isTrue trivial
  | .letAllGo _ => .isTrue trivial

theorem Move.Within.congr {g g' : Graph} {move : Move} (h : move.Within g) (hnodes : g'.nodes = g.nodes) :
    move.Within g' := by
  cases move with
  | state edge origin =>
      rw [Within, hnodes]
      exact h
  | letGo id origin => trivial
  | letAllGo origin => trivial

/-- Who holds each edge, and the id that its last statement was answered with. -/
structure Ledger where
  answered : EdgeKind × Int × Int → Option Int := fun _ => none
  holders : EdgeKind × Int × Int → Finset String := fun _ => ∅

namespace Ledger

/-- An origin states an edge and is answered with an id. -/
def state (l : Ledger) (edge : EdgeKind × Int × Int) (origin : String) (id : Int) : Ledger where
  answered := Function.update l.answered edge (some id)
  holders := Function.update l.holders edge (insert origin (l.holders edge))

/-- An origin lets go of the edge with an id. -/
def letGo (l : Ledger) (id : Int) (origin : String) : Ledger :=
  { l with holders := fun edge => if l.answered edge = some id then (l.holders edge).erase origin else l.holders edge }

/-- An origin lets go of every edge. -/
def letAllGo (l : Ledger) (origin : String) : Ledger := { l with holders := fun edge => (l.holders edge).erase origin }

variable (l : Ledger) {edge other : EdgeKind × Int × Int} (origin : String) (id : Int)

@[simp] theorem answered_state_self : (l.state edge origin id).answered edge = some id := Function.update_self _ _ _

theorem answered_state_of_ne (h : other ≠ edge) : (l.state edge origin id).answered other = l.answered other :=
  Function.update_of_ne h _ _

@[simp] theorem holders_state_self : (l.state edge origin id).holders edge = insert origin (l.holders edge) :=
  Function.update_self _ _ _

theorem holders_state_of_ne (h : other ≠ edge) : (l.state edge origin id).holders other = l.holders other :=
  Function.update_of_ne h _ _

end Ledger

/-- Makes a move in the graph, and enters it in the ledger. -/
def Move.make : Graph × Ledger → Move → Outcome (Graph × Ledger)
  | (g, l), .state edge origin => do
    let (g, id) ← g.upsertEdge { edge with origin := some origin }
    pure (g, l.state edge.identity origin id)
  | (g, l), .letGo id origin => pure ((g.releaseEdge id origin).1, l.letGo id origin)
  | (g, l), .letAllGo origin => pure ((g.deleteEdgesHeldBy origin).1, l.letAllGo origin)

/-- Makes moves one after the other, with a ledger that is empty at first. -/
def made (g : Graph) (moves : List Move) : Outcome (Graph × Ledger) := moves.foldlM Move.make (g, {})

/-- A ledger and a graph tell the same edges with the same holders. -/
structure Mirrors (l : Ledger) (g : Graph) : Prop where
  wellFormed : g.WellFormed
  inOrder : g.InOrder
  answered : ∀ e ∈ g.edges, l.answered e.identity = some e.id
  once : ∀ edge id, l.answered edge = some id → ∀ e ∈ g.edges, e.id = id → e.identity = edge
  below : ∀ edge id, l.answered edge = some id → id < g.nextEdge
  sorted : ∀ e ∈ g.edges, e.holders.Pairwise (· < ·)
  holders : ∀ e ∈ g.edges, ∀ o, o ∈ e.holders ↔ o ∈ l.holders e.identity
  origin : ∀ e ∈ g.edges, ∃ o ∈ e.holders, e.origin = some o
  standing : ∀ edge, (l.holders edge).Nonempty → ∃ e ∈ g.edges, e.identity = edge

namespace Mirrors

variable {g : Graph} {l : Ledger}

theorem empty (hg : g.WellFormed) (h : g.edges = []) : Mirrors {} g := by
  have hnone : ∀ e, e ∉ g.edges := by simp [h]
  refine ⟨hg, ?_, ?_, ?_, ?_, ?_, ?_, ?_, ?_⟩
  · rw [InOrder, h]
    exact .nil
  · exact fun e he => absurd he (hnone e)
  · exact fun _ _ hid => absurd hid (by simp)
  · exact fun _ _ hid => absurd hid (by simp)
  · exact fun e he => absurd he (hnone e)
  · exact fun e he => absurd he (hnone e)
  · exact fun e he => absurd he (hnone e)
  · exact fun _ hheld => absurd hheld (by simp)

/-- Before an edge is written it has the holders that the ledger has. -/
theorem mem_heldBefore (h : Mirrors l g) (n : NewEdge) (o : String) :
    o ∈ g.heldBefore n ↔ o ∈ l.holders n.identity := by
  rw [Graph.mem_heldBefore h.wellFormed]
  constructor
  · rintro ⟨e, he, hi, ho⟩
    rw [← hi]
    exact (h.holders e he o).1 ho
  · intro ho
    obtain ⟨e, he, hi⟩ := h.standing n.identity ⟨o, ho⟩
    refine ⟨e, he, hi, (h.holders e he o).2 ?_⟩
    rw [hi]
    exact ho

theorem pairwise_heldBefore (h : Mirrors l g) (n : NewEdge) : (g.heldBefore n).Pairwise (· < ·) := by
  unfold heldBefore
  cases hf : g.findEdge? n.kind n.source n.target with
  | none => exact .nil
  | some old => exact h.sorted old ((findEdge?_eq_some_iff h.wellFormed n old).1 hf).1

/-- An id that another edge was answered with is not the answer to a statement. -/
theorem answered_ne (h : Mirrors l g) {n : NewEdge} {edge : EdgeKind × Int × Int} {id : Int} (hne : edge ≠ n.identity)
    (hid : l.answered edge = some id) : (g.putEdge n).2 ≠ id := by
  intro heq
  by_cases hold : ∃ e ∈ g.edges, e.identity = n.identity
  · obtain ⟨e, he, hi⟩ := hold
    rw [putEdge_snd_of_mem h.wellFormed he hi] at heq
    exact hne ((h.once edge id hid e he heq).symm.trans hi)
  · have hnew := putEdge_snd_of_new h.wellFormed fun e he hi => hold ⟨e, he, hi⟩
    have hlt := h.below edge id hid
    omega

theorem putEdge (h : Mirrors l g) {n : NewEdge} {s t : Identity} (hs : g.Names n.source s) (ht : g.Names n.target t)
    {o : String} (ho : n.origin = some o) :
    Mirrors (l.state n.identity o (g.putEdge n).2) (g.putEdge n).1 := by
  have hg' := h.wellFormed.putEdge hs ht
  have hnew : n.stored (g.putEdge n).2 (g.heldBefore n) ∈ (g.putEdge n).1.edges :=
    (mem_putEdge h.wellFormed n _).2 (Or.inl rfl)
  -- what holds of the edge written, and of the others as before, holds of all
  have hall : ∀ {P : Edge → Prop}, P (n.stored (g.putEdge n).2 (g.heldBefore n)) →
      (∀ e ∈ g.edges, e.identity ≠ n.identity → P e) → ∀ e ∈ (g.putEdge n).1.edges, P e := by
    intro P hstored hothers e he
    rcases (mem_putEdge h.wellFormed n e).1 he with rfl | ⟨he, hi⟩
    · exact hstored
    · exact hothers e he hi
  have hheld : (n.stored (g.putEdge n).2 (g.heldBefore n)).holders = Edge.insertHolder o (g.heldBefore n) := by
    simp only [NewEdge.stored, Edge.withHolder, ho]
  refine ⟨hg', h.inOrder.putEdge h.wellFormed n, ?_, ?_, ?_, ?_, ?_, ?_, ?_⟩
  · refine hall (l.answered_state_self o _) fun e he hi => ?_
    rw [l.answered_state_of_ne o _ hi]
    exact h.answered e he
  · intro edge id hid e he heid
    by_cases hedge : edge = n.identity
    · rw [hedge, l.answered_state_self, Option.some.injEq] at hid
      rw [hg'.edge_eq_of_id he hnew (heid.trans hid.symm), hedge]
      rfl
    · rw [l.answered_state_of_ne o _ hedge] at hid
      rcases (mem_putEdge h.wellFormed n e).1 he with rfl | ⟨he, _⟩
      · exact absurd heid (h.answered_ne hedge hid)
      · exact h.once edge id hid e he heid
  · intro edge id hid
    by_cases hedge : edge = n.identity
    · rw [hedge, l.answered_state_self, Option.some.injEq] at hid
      rw [← hid]
      exact hg'.edgesBelow _ hnew
    · rw [l.answered_state_of_ne o _ hedge] at hid
      have hlt := h.below edge id hid
      rw [putEdge_nextEdge]
      omega
  · refine hall ?_ fun e he _ => h.sorted e he
    rw [hheld]
    exact Edge.pairwise_insertHolder o (h.pairwise_heldBefore n)
  · refine hall ?_ ?_
    · intro x
      rw [hheld, Edge.mem_insertHolder, h.mem_heldBefore]
      exact (l.holders_state_self o _ ▸ Finset.mem_insert).symm
    · intro e he hi x
      rw [l.holders_state_of_ne o _ hi]
      exact h.holders e he x
  · refine hall ⟨o, ?_, ho⟩ fun e he _ => h.origin e he
    rw [hheld]
    exact (Edge.mem_insertHolder o o _).2 (Or.inl rfl)
  · intro edge hne
    by_cases hedge : edge = n.identity
    · exact ⟨_, hnew, hedge.symm⟩
    · rw [l.holders_state_of_ne o _ hedge] at hne
      obtain ⟨e, he, rfl⟩ := h.standing edge hne
      exact ⟨e, (mem_putEdge h.wellFormed n e).2 (Or.inr ⟨he, hedge⟩), rfl⟩

/-- An origin lets go of the edges with some ids. In the ledger it leaves the holders of these edges, and all others stay. -/
theorem releaseAll (h : Mirrors l g) (ids : List Int) (o : String) {l' : Ledger} (hanswered : l'.answered = l.answered)
    (hsub : ∀ edge, l'.holders edge ⊆ l.holders edge)
    (hleft : ∀ e ∈ g.edges, e.id ∈ ids → l'.holders e.identity = (l.holders e.identity).erase o)
    (hkept : ∀ e ∈ g.edges, e.id ∉ ids → l'.holders e.identity = l.holders e.identity) :
    Mirrors l' (g.releaseAll ids o) := by
  -- what holds of the edges that were not let go of, and of those that others hold too, holds of all
  have hall : ∀ {P : Edge → Prop}, (∀ e ∈ g.edges, e.id ∉ ids → P e) →
      (∀ e ∈ g.edges, e.id ∈ ids → ∀ e', e.released o = some e' → P e') → ∀ e ∈ (g.releaseAll ids o).edges, P e := by
    intro P hstay hreleased e he
    rcases (mem_releaseAll h.wellFormed ids o e).1 he with ⟨he, hid⟩ | ⟨f, hf, hid, heq⟩
    · exact hstay e he hid
    · exact hreleased f hf hid e heq
  refine ⟨h.wellFormed.releaseAll ids o, h.inOrder.releaseAll h.wellFormed ids o, ?_, ?_, ?_, ?_, ?_, ?_, ?_⟩
  · rw [hanswered]
    refine hall (fun e he _ => h.answered e he) fun e he _ e' heq => ?_
    obtain ⟨hid, hi, -⟩ := Edge.released_eq_some heq
    rw [hid, hi]
    exact h.answered e he
  · rw [hanswered]
    intro edge id hid e he heid
    obtain ⟨f, hf, hfid, hi⟩ := exists_of_mem_releaseAll h.wellFormed he
    rw [hi]
    exact h.once edge id hid f hf (hfid.symm.trans heid)
  · rw [hanswered, releaseAll_nextEdge]
    exact h.below
  · refine hall (fun e he _ => h.sorted e he) fun e he _ e' heq => ?_
    rw [(Edge.released_eq_some heq).2.2.2]
    exact (h.sorted e he).filter _
  · refine hall (fun e he hid x => ?_) fun e he hid e' heq x => ?_
    · rw [hkept e he hid]
      exact h.holders e he x
    · obtain ⟨-, hi, -, hholders⟩ := Edge.released_eq_some heq
      rw [hholders, hi, hleft e he hid, Finset.mem_erase, List.mem_filter, h.holders e he, decide_eq_true_iff]
      exact and_comm
  · exact hall (fun e he _ => h.origin e he) fun e _ _ e' heq => Edge.exists_origin_of_released heq
  · intro edge hne
    obtain ⟨e, he, rfl⟩ := h.standing edge (hne.mono (hsub edge))
    by_cases hid : e.id ∈ ids
    · rw [hleft e he hid] at hne
      obtain ⟨x, hx⟩ := hne
      obtain ⟨hxo, hx⟩ := Finset.mem_erase.1 hx
      obtain ⟨e', heq⟩ := Edge.exists_released ((h.holders e he x).2 hx) hxo
      exact ⟨e', (mem_releaseAll h.wellFormed ids o e').2 (Or.inr ⟨e, he, hid, heq⟩), (Edge.released_eq_some heq).2.1⟩
    · exact ⟨e, (mem_releaseAll h.wellFormed ids o e).2 (Or.inl ⟨he, hid⟩), rfl⟩

theorem letGo (h : Mirrors l g) (id : Int) (o : String) : Mirrors (l.letGo id o) (g.releaseEdge id o).1 := by
  have hanswered : ∀ e ∈ g.edges, l.answered e.identity = some id ↔ e.id ∈ [id] := by
    intro e he
    rw [h.answered e he, Option.some.injEq, List.mem_singleton]
  refine h.releaseAll [id] o rfl ?_ ?_ ?_
  · intro edge
    simp only [Ledger.letGo]
    split
    · exact Finset.erase_subset _ _
    · exact Finset.Subset.refl _
  · exact fun e he hid => if_pos ((hanswered e he).2 hid)
  · exact fun e he hid => if_neg fun heq => hid ((hanswered e he).1 heq)

theorem letAllGo (h : Mirrors l g) (o : String) : Mirrors (l.letAllGo o) (g.deleteEdgesHeldBy o).1 := by
  rw [deleteEdgesHeldBy_eq]
  refine h.releaseAll _ o rfl (fun _ => Finset.erase_subset _ _) (fun _ _ _ => rfl) ?_
  intro e he hid
  refine Finset.erase_eq_of_notMem fun ho => hid ?_
  exact (mem_edgesHeldBy_iff e.id o).2 ⟨e, he, rfl, (h.holders e he o).2 ho⟩

/-- A move is made, and the ledger goes on to mirror the graph. -/
theorem make (h : Mirrors l g) {move : Move} (hends : move.Within g) :
    ∃ g' l', move.make (g, l) = .ok (g', l') ∧ Mirrors l' g' ∧ g'.nodes = g.nodes := by
  cases move with
  | state edge origin =>
      obtain ⟨⟨s, hs, hsid⟩, ⟨t, ht, htid⟩⟩ := hends
      have hsource : g.Names edge.source s.identity := ⟨s, hs, hsid, rfl⟩
      have htarget : g.Names edge.target t.identity := ⟨t, ht, htid, rfl⟩
      have hput := upsertEdge_eq_putEdge (n := { edge with origin := some origin }) hsource htarget
      refine ⟨_, _, ?_, h.putEdge (n := { edge with origin := some origin }) hsource htarget rfl, putEdge_nodes _ _⟩
      simp only [Move.make, hput]
      rfl
  | letGo id origin => exact ⟨_, _, rfl, h.letGo id origin, releaseEdge_nodes _ _ _⟩
  | letAllGo origin =>
      refine ⟨_, _, rfl, h.letAllGo origin, ?_⟩
      rw [deleteEdgesHeldBy_eq, releaseAll_nodes]

theorem made (h : Mirrors l g) {moves : List Move} (hends : ∀ move ∈ moves, move.Within g) :
    ∃ g' l', moves.foldlM Move.make (g, l) = .ok (g', l') ∧ Mirrors l' g' := by
  induction moves generalizing g l with
  | nil => exact ⟨g, l, rfl, h⟩
  | cons move moves ih =>
      obtain ⟨hmove, hmoves⟩ := List.forall_mem_cons.1 hends
      obtain ⟨g₁, l₁, hmake, h₁, hnodes⟩ := h.make hmove
      obtain ⟨g', l', hrest, h'⟩ := ih h₁ fun next hnext => (hmoves next hnext).congr hnodes
      refine ⟨g', l', ?_, h'⟩
      rw [List.foldlM_cons, hmake]
      exact hrest

/-- The holders of an edge are told in order. -/
theorem holders_eq_sort (h : Mirrors l g) {e : Edge} (he : e ∈ g.edges) :
    e.holders = (l.holders e.identity).sort (· ≤ ·) := by
  have hset : e.holders.toFinset = l.holders e.identity := by
    ext o
    rw [List.mem_toFinset]
    exact h.holders e he o
  have hle : e.holders.Pairwise (· ≤ ·) := (h.sorted e he).imp le_of_lt
  rw [← hset]
  exact ((List.toFinset_sort (· ≤ ·) ((h.sorted e he).imp ne_of_lt)).2 hle).symm

theorem exists_edge_iff (h : Mirrors l g) (edge : EdgeKind × Int × Int) :
    (∃ e ∈ g.edges, e.identity = edge) ↔ (l.holders edge).Nonempty := by
  constructor
  · rintro ⟨e, he, rfl⟩
    obtain ⟨o, ho, -⟩ := h.origin e he
    exact ⟨o, (h.holders e he o).1 ho⟩
  · exact h.standing edge

theorem mem_edgesHeldBy (h : Mirrors l g) (id : Int) (o : String) :
    id ∈ g.edgesHeldBy o ↔ ∃ e ∈ g.edges, e.id = id ∧ o ∈ l.holders e.identity := by
  rw [mem_edgesHeldBy_iff]
  constructor
  · rintro ⟨e, he, hid, ho⟩
    exact ⟨e, he, hid, (h.holders e he o).1 ho⟩
  · rintro ⟨e, he, hid, ho⟩
    exact ⟨e, he, hid, (h.holders e he o).2 ho⟩

theorem pairwise_edgesHeldBy (h : Mirrors l g) (o : String) : (g.edgesHeldBy o).Pairwise (· < ·) :=
  List.pairwise_map.2 (h.inOrder.filter _)

end Mirrors

/-- Origins state edges between nodes of a graph that had none, and let go of them, in any order. None of this fails. An
edge is there as long as somebody holds it; its id is the one that its last statement was answered with. The graph tells
its holders in order, and none for other ids; it tells which edges an origin holds, in order and to the same effect; and the
origin on record is one of the holders. -/
theorem edge_lives_while_held (operations : List Operation) (hedges : (performed operations).graph.edges = [])
    (moves : List Move) (hends : ∀ move ∈ moves, move.Within (performed operations).graph) :
    ∃ g l, made (performed operations).graph moves = .ok (g, l) ∧
      (∀ edge, (∃ e ∈ g.edges, e.identity = edge) ↔ (l.holders edge).Nonempty) ∧
      (∀ e ∈ g.edges, l.answered e.identity = some e.id) ∧
      (∀ e ∈ g.edges, g.holdersOf e.id = (l.holders e.identity).sort (· ≤ ·)) ∧
      (∀ id, (∀ e ∈ g.edges, e.id ≠ id) → g.holdersOf id = []) ∧
      (∀ o, (g.edgesHeldBy o).Pairwise (· < ·) ∧
        ∀ id, id ∈ g.edgesHeldBy o ↔ ∃ e ∈ g.edges, e.id = id ∧ o ∈ l.holders e.identity) ∧
      ∀ e ∈ g.edges, ∃ o ∈ l.holders e.identity, e.origin = some o := by
  have hstart := Mirrors.empty (Register.sound_performed operations).graph hedges
  obtain ⟨g, l, hmade, h⟩ := hstart.made hends
  refine ⟨g, l, hmade, h.exists_edge_iff, h.answered, ?_, fun _ => holdersOf_of_missing, ?_, ?_⟩
  · intro e he
    rw [holdersOf_of_mem h.wellFormed he, h.holders_eq_sort he]
  · exact fun o => ⟨h.pairwise_edgesHeldBy o, fun id => h.mem_edgesHeldBy id o⟩
  · intro e he
    obtain ⟨o, ho, horigin⟩ := h.origin e he
    exact ⟨o, (h.holders e he o).1 ho, horigin⟩

/-- A class and a module. -/
def classAndModule : List Operation := [.ensureNode .classDecl "User", .ensureNode .moduleDecl "Searchable"]

/-- The class includes the module. -/
def inclusion : NewEdge := { kind := .includes, source := 1, target := 2 }

/-- Two files state the inclusion, and a third one lets go of what it does not hold. The two let go, the third file states
the inclusion anew, and then lets go of it by the id that it had before. -/
def comingAndGoing : List Move :=
  [.state inclusion "b.rb", .state inclusion "a.rb", .letGo 1 "c.rb", .letGo 1 "b.rb", .letAllGo "a.rb",
    .state inclusion "c.rb", .letGo 1 "c.rb"]

theorem edge_lives_while_held_comingAndGoing :
    (performed classAndModule).graph.edges = [] ∧ (∀ move ∈ comingAndGoing, move.Within (performed classAndModule).graph) ∧
    ∃ g l, made (performed classAndModule).graph comingAndGoing = .ok (g, l) ∧
      l.holders inclusion.identity = {"c.rb"} ∧ l.answered inclusion.identity = some 3 ∧
      (∃ e ∈ g.edges, e.identity = inclusion.identity ∧ e.origin = some "c.rb") ∧
      g.holdersOf 3 = ["c.rb"] ∧ 3 ∈ g.edgesHeldBy "c.rb" := by
  have hedges : (performed classAndModule).graph.edges = [] := by rfl
  have hends : ∀ move ∈ comingAndGoing, move.Within (performed classAndModule).graph := by decide +kernel
  have hentry : (made (performed classAndModule).graph comingAndGoing).toOption.map (fun r =>
      (r.2.holders inclusion.identity, r.2.answered inclusion.identity)) = some ({"c.rb"}, some 3) := by decide +kernel
  obtain ⟨g, l, hmade, hexists, hanswered, hholders, -, hheld, horigin⟩ :=
    edge_lives_while_held classAndModule hedges comingAndGoing hends
  rw [hmade] at hentry
  simp only [Except.toOption, Option.map_some, Option.some.injEq, Prod.mk.injEq] at hentry
  obtain ⟨hset, hid⟩ := hentry
  obtain ⟨e, he, hi⟩ := (hexists inclusion.identity).2 (hset ▸ Finset.singleton_nonempty _)
  have heid : e.id = 3 := by
    have h := hanswered e he
    rw [hi, hid, Option.some.injEq] at h
    exact h.symm
  refine ⟨hedges, hends, g, l, hmade, hset, hid, ⟨e, he, hi, ?_⟩, ?_, ?_⟩
  · obtain ⟨o, ho, heq⟩ := horigin e he
    rw [hi, hset, Finset.mem_singleton] at ho
    rw [heq, ho]
  · rw [← heid, hholders e he, hi, hset, Finset.sort_singleton]
  · refine ((hheld "c.rb").2 3).2 ⟨e, he, heid, ?_⟩
    rw [hi, hset]
    exact Finset.mem_singleton_self _

end Graph

end CodeAtlas
