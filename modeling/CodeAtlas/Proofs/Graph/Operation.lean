import CodeAtlas.Proofs.Graph.Holding
import Mathlib.Data.List.Induction
/-!
# Any operations in any order

An `Operation` is one of the ways to change a graph, with any arguments. A `Register` is a graph together with all ids
that were given so far, to nodes and to edges, and what they were given to. Whatever is done to an empty graph, it stays
well-formed, and no id is ever given to two different things: the ids given next lie above all that were given
(`Issued`), and what was deleted or cleared gives none of them back (`ids_given_once`).
-/

namespace CodeAtlas

/-- Ids were given to keys, none of them to two, and all below the next; every row has its id by such a gift. -/
structure Issued {α β : Type*} (id : α → Int) (key : α → β) (next : Int) (rows : List α) (given : List (Int × β)) :
    Prop where
  once : ∀ a b b', (a, b) ∈ given → (a, b') ∈ given → b = b'
  below : ∀ a b, (a, b) ∈ given → a < next
  rows : ∀ r ∈ rows, (id r, key r) ∈ given

namespace Issued

variable {α β : Type*} {id : α → Int} {key : α → β} {next : Int} {rows : List α} {given : List (Int × β)}

theorem nil : Issued id key next [] [] := by
  constructor <;> simp

theorem mono (h : Issued id key next rows given) {rows' : List α}
    (hrows : ∀ r ∈ rows', ∃ s ∈ rows, id r = id s ∧ key r = key s) : Issued id key next rows' given := by
  refine ⟨h.once, h.below, ?_⟩
  intro r hr
  obtain ⟨s, hs, hid, hkey⟩ := hrows r hr
  rw [hid, hkey]
  exact h.rows s hs

/-- An id can be given to a key if it was given to that key before, or is the next. -/
theorem give (h : Issued id key next rows given) {a next' : Int} {b : β}
    (ha : ((a, b) ∈ given ∧ next ≤ next') ∨ (a = next ∧ next < next')) {rows' : List α}
    (hrows : ∀ r ∈ rows', r ∈ rows ∨ (id r = a ∧ key r = b)) :
    Issued id key next' rows' (given ++ [(a, b)]) := by
  have hlt : a < next' := by
    rcases ha with ⟨ha, hle⟩ | ⟨rfl, hlt⟩
    · exact Int.lt_of_lt_of_le (h.below a b ha) hle
    · exact hlt
  have hsame : ∀ b', (a, b') ∈ given → b' = b := by
    intro b' hb'
    rcases ha with ⟨ha, _⟩ | ⟨rfl, _⟩
    · exact h.once a b' b hb' ha
    · exact absurd (h.below a b' hb') (Int.lt_irrefl a)
  refine ⟨?_, ?_, ?_⟩
  · intro x b₁ b₂ h₁ h₂
    rw [List.mem_append, List.mem_singleton, Prod.mk.injEq] at h₁ h₂
    rcases h₁ with h₁ | ⟨rfl, rfl⟩
    · rcases h₂ with h₂ | ⟨rfl, rfl⟩
      · exact h.once x b₁ b₂ h₁ h₂
      · exact hsame b₁ h₁
    · rcases h₂ with h₂ | ⟨_, rfl⟩
      · exact (hsame b₂ h₂).symm
      · rfl
  · intro x y hxy
    rw [List.mem_append, List.mem_singleton, Prod.mk.injEq] at hxy
    rcases hxy with hxy | ⟨rfl, _⟩
    · have hbelow := h.below x y hxy
      rcases ha with ⟨_, hle⟩ | ⟨_, hnext⟩ <;> omega
    · exact hlt
  · intro r hr
    rcases hrows r hr with hold | ⟨hid, hkey⟩
    · exact List.mem_append_left _ (h.rows r hold)
    · rw [hid, hkey]
      exact List.mem_append_right _ List.mem_cons_self

end Issued

namespace Graph

variable {g : Graph}

/-! ## Edges that are refused, deleted and released -/

theorem upsertEdge_of_missing {n : NewEdge}
    (h : (∀ m ∈ g.nodes, m.id ≠ n.source) ∨ ∀ m ∈ g.nodes, m.id ≠ n.target) :
    g.upsertEdge n = .error (.storage .danglingReference) := by
  have hnone : ∀ id, (∀ m ∈ g.nodes, m.id ≠ id) → (g.node? id).isNone = true := by
    intro id hid
    rw [Option.isNone_iff_eq_none, Graph.node?, List.find?_eq_none]
    intro m hm
    simpa using hid m hm
  unfold upsertEdge
  rcases h with h | h
  · rw [hnone _ h]
    rfl
  · rw [hnone _ h, Bool.or_true]
    rfl

/-- Every edge that is not refused is written between nodes that exist. -/
theorem upsertEdge_cases (g : Graph) (n : NewEdge) :
    (∃ s t, g.Names n.source s ∧ g.Names n.target t ∧ g.upsertEdge n = .ok (g.putEdge n)) ∨
      g.upsertEdge n = .error (.storage .danglingReference) := by
  by_cases hs : ∃ m ∈ g.nodes, m.id = n.source
  · by_cases ht : ∃ m ∈ g.nodes, m.id = n.target
    · obtain ⟨s, hs, hsid⟩ := hs
      obtain ⟨t, ht, htid⟩ := ht
      have hsource : g.Names n.source s.identity := ⟨s, hs, hsid, rfl⟩
      have htarget : g.Names n.target t.identity := ⟨t, ht, htid, rfl⟩
      exact Or.inl ⟨_, _, hsource, htarget, upsertEdge_eq_putEdge hsource htarget⟩
    · exact Or.inr (upsertEdge_of_missing (Or.inr fun m hm hid => ht ⟨m, hm, hid⟩))
  · exact Or.inr (upsertEdge_of_missing (Or.inl fun m hm hid => hs ⟨m, hm, hid⟩))

theorem WellFormed.deleteEdge (hg : g.WellFormed) (id : Int) : (g.deleteEdge id).WellFormed :=
  ⟨hg.nodeIds, hg.nodeIdentities, hg.nodesBelow, hg.edgeIds.sublist (List.filter_sublist.map _),
    hg.edgeIdentities.sublist (List.filter_sublist.map _),
    fun e he => hg.edgesBelow e (List.mem_filter.1 he).1, fun e he => hg.ends e (List.mem_filter.1 he).1⟩

theorem wellFormed_clear (g : Graph) : g.clear.WellFormed := by
  constructor <;> simp [clear]

@[simp] theorem releaseAll_nextNode (g : Graph) (ids : List Int) (o : String) :
    (g.releaseAll ids o).nextNode = g.nextNode := by
  induction ids generalizing g with
  | nil => rfl
  | cons id rest ih =>
      have h := ih (g.releaseEdge id o).1
      rw [releaseEdge_nextNode] at h
      exact h

@[simp] theorem releaseAll_nextEdge (g : Graph) (ids : List Int) (o : String) :
    (g.releaseAll ids o).nextEdge = g.nextEdge := by
  induction ids generalizing g with
  | nil => rfl
  | cons id rest ih =>
      have h := ih (g.releaseEdge id o).1
      rw [releaseEdge_nextEdge] at h
      exact h

theorem deleteEdgesHeldBy_eq (g : Graph) (o : String) :
    (g.deleteEdgesHeldBy o).1 = g.releaseAll (g.edgesHeldBy o) o := by
  have hfold : ∀ (ids : List Int) (g : Graph) (n : Nat),
      (ids.foldl (fun released id =>
        ((Graph.releaseEdge released.1 id o).1,
          if (Graph.releaseEdge released.1 id o).2 then released.2 + 1 else released.2)) (g, n)).1 =
        g.releaseAll ids o := by
    intro ids
    induction ids with
    | nil => exact fun _ _ => rfl
    | cons id rest ih => exact fun g n => ih (g.releaseEdge id o).1 _
  exact hfold _ g 0

/-- What letting go of edges leaves of them has the id and the ends it had. -/
theorem exists_of_mem_releaseAll (hg : g.WellFormed) {ids : List Int} {o : String} {e : Edge}
    (he : e ∈ (g.releaseAll ids o).edges) : ∃ f ∈ g.edges, e.id = f.id ∧ e.identity = f.identity := by
  rcases (mem_releaseAll hg ids o e).1 he with ⟨he, _⟩ | ⟨f, hf, _, hrel⟩
  · exact ⟨e, he, rfl, rfl⟩
  · obtain ⟨hid, hidentity, _⟩ := Edge.released_eq_some hrel
    exact ⟨f, hf, hid, hidentity⟩

theorem holdersOf_of_missing {id : Int} (h : ∀ e ∈ g.edges, e.id ≠ id) : g.holdersOf id = [] := by
  have hnone : g.edge? id = none := by
    rw [edge?, List.find?_eq_none]
    intro e he
    simpa using h e he
  rw [holdersOf, hnone, Option.map_none, Option.getD_none]

theorem mem_holdersOf (hg : g.WellFormed) (id : Int) (o : String) :
    o ∈ g.holdersOf id ↔ ∃ e ∈ g.edges, e.id = id ∧ o ∈ e.holders := by
  by_cases hid : ∃ e ∈ g.edges, e.id = id
  · obtain ⟨e, he, rfl⟩ := hid
    rw [holdersOf_of_mem hg he]
    constructor
    · exact fun ho => ⟨e, he, rfl, ho⟩
    · rintro ⟨f, hf, hfid, ho⟩
      rw [hg.edge_eq_of_id he hf hfid.symm]
      exact ho
  · have hmissing : ∀ e ∈ g.edges, e.id ≠ id := fun e he h => hid ⟨e, he, h⟩
    rw [holdersOf_of_missing hmissing]
    constructor
    · exact fun ho => absurd ho List.not_mem_nil
    · exact fun ⟨e, he, h, _⟩ => absurd h (hmissing e he)

theorem mem_edgesHeldBy_iff (id : Int) (o : String) :
    id ∈ g.edgesHeldBy o ↔ ∃ e ∈ g.edges, e.id = id ∧ o ∈ e.holders := by
  simp only [edgesHeldBy, List.mem_map, List.mem_filter, List.contains_iff_mem]
  constructor
  · rintro ⟨e, ⟨he, ho⟩, hid⟩
    exact ⟨e, he, hid, ho⟩
  · rintro ⟨e, he, hid, ho⟩
    exact ⟨e, ⟨he, ho⟩, hid⟩

/-! ## Operations and the ids they give -/

/-- An operation on a graph. -/
inductive Operation where
  | upsertNode (n : NewNode)
  | ensureNode (kind : NodeKind) (key : String)
  | demoteNode (id : Int)
  | deleteNode (id : Int)
  | upsertEdge (n : NewEdge)
  | releaseEdge (id : Int) (origin : String)
  | deleteEdge (id : Int)
  | deleteEdgesHeldBy (origin : String)
  | clear

/-- A graph and the ids that were given, with what each was given to. -/
structure Register where
  graph : Graph := {}
  nodeIds : List (Int × Identity) := []
  edgeIds : List (Int × EdgeKind × Int × Int) := []

/-- Carries out an operation and enters the id it gives. An edge that is refused changes nothing. -/
def Operation.perform (r : Register) : Operation → Register
  | .upsertNode n =>
    let (graph, id) := r.graph.upsertNode n
    { r with graph := graph, nodeIds := r.nodeIds ++ [(id, n.identity)] }
  | .ensureNode kind key =>
    let (graph, id) := r.graph.ensureNode kind key
    { r with graph := graph, nodeIds := r.nodeIds ++ [(id, kind, key)] }
  | .demoteNode id => { r with graph := r.graph.demoteNode id }
  | .deleteNode id => { r with graph := r.graph.deleteNode id }
  | .upsertEdge n =>
    match r.graph.upsertEdge n with
    | .ok (graph, id) => { r with graph := graph, edgeIds := r.edgeIds ++ [(id, n.identity)] }
    | .error _ => r
  | .releaseEdge id origin => { r with graph := (r.graph.releaseEdge id origin).1 }
  | .deleteEdge id => { r with graph := r.graph.deleteEdge id }
  | .deleteEdgesHeldBy origin => { r with graph := (r.graph.deleteEdgesHeldBy origin).1 }
  | .clear => { r with graph := r.graph.clear }

/-- The register after operations on an empty graph. -/
def performed (operations : List Operation) : Register := operations.foldl Operation.perform {}

/-- The graph is well-formed, and every id was given to one thing only. -/
structure Register.Sound (r : Register) : Prop where
  graph : r.graph.WellFormed
  nodes : Issued Node.id Node.identity r.graph.nextNode r.graph.nodes r.nodeIds
  edges : Issued Edge.id Edge.identity r.graph.nextEdge r.graph.edges r.edgeIds

namespace Register

variable {r : Register}

theorem sound_empty : ({} : Register).Sound := ⟨wellFormed_empty, .nil, .nil⟩

/-- The id that a write gives to a node is one it has, or the next. -/
theorem Sound.given_or_next (h : r.Sound) (n : NewNode) :
    (((r.graph.upsertNode n).2, n.identity) ∈ r.nodeIds ∧ r.graph.nextNode ≤ r.graph.nextNode + 1) ∨
      ((r.graph.upsertNode n).2 = r.graph.nextNode ∧ r.graph.nextNode < r.graph.nextNode + 1) := by
  by_cases hhas : r.graph.Has n.identity
  · obtain ⟨id, hid⟩ := hhas
    rw [upsertNode_snd_of_names h.graph hid]
    obtain ⟨m, hm, rfl, hi⟩ := hid
    rw [← hi]
    exact Or.inl ⟨h.nodes.rows m hm, by omega⟩
  · exact Or.inr ⟨upsertNode_snd_of_not_has h.graph hhas, by omega⟩

theorem Sound.upsertNode (h : r.Sound) (n : NewNode) : ((Operation.upsertNode n).perform r).Sound := by
  refine ⟨h.graph.upsertNode n, ?_, ?_⟩
  · change Issued Node.id Node.identity (r.graph.upsertNode n).1.nextNode (r.graph.upsertNode n).1.nodes _
    rw [upsertNode_nextNode]
    refine h.nodes.give (h.given_or_next n) ?_
    intro m hm
    rcases (mem_upsertNode h.graph n m).1 hm with rfl | ⟨hm, _⟩
    · exact Or.inr ⟨rfl, rfl⟩
    · exact Or.inl hm
  · change Issued Edge.id Edge.identity (r.graph.upsertNode n).1.nextEdge (r.graph.upsertNode n).1.edges _
    rw [upsertNode_nextEdge, upsertNode_edges]
    exact h.edges

theorem Sound.ensureNode (h : r.Sound) (kind : NodeKind) (key : String) :
    ((Operation.ensureNode kind key).perform r).Sound := by
  by_cases hhas : r.graph.Has (kind, key)
  · obtain ⟨id, hid⟩ := hhas
    have hsame := ensureNode_of_names h.graph hid
    obtain ⟨m, hm, rfl, hi⟩ := hid
    have hgiven := h.nodes.rows m hm
    rw [hi] at hgiven
    simp only [Operation.perform, hsame]
    exact ⟨h.graph, h.nodes.give (Or.inl ⟨hgiven, Int.le_refl _⟩) fun _ hn => Or.inl hn, h.edges⟩
  · have hnew := ensureNode_of_not_has h.graph hhas
    have hwrite := h.upsertNode (placeholder kind key)
    simp only [Operation.perform] at hwrite ⊢
    rw [hnew]
    exact hwrite

theorem Sound.upsertEdge (h : r.Sound) (n : NewEdge) : ((Operation.upsertEdge n).perform r).Sound := by
  rcases upsertEdge_cases r.graph n with ⟨s, t, hs, ht, hput⟩ | hrefused
  · simp only [Operation.perform, hput]
    refine ⟨h.graph.putEdge hs ht, ?_, ?_⟩
    · rw [putEdge_nextNode, putEdge_nodes]
      exact h.nodes
    · rw [putEdge_nextEdge]
      refine h.edges.give ?_ ?_
      · by_cases hold : ∃ e ∈ r.graph.edges, e.identity = n.identity
        · obtain ⟨e, he, hi⟩ := hold
          rw [putEdge_snd_of_mem h.graph he hi, ← hi]
          exact Or.inl ⟨h.edges.rows e he, by omega⟩
        · have hnew := putEdge_snd_of_new h.graph fun e he hi => hold ⟨e, he, hi⟩
          exact Or.inr ⟨hnew, by omega⟩
      · intro e he
        rcases (mem_putEdge h.graph n e).1 he with rfl | ⟨he, _⟩
        · exact Or.inr ⟨rfl, rfl⟩
        · exact Or.inl he
  · simp only [Operation.perform, hrefused]
    exact h

/-- An operation that gives no id and takes nothing but rows away leaves the register sound. -/
theorem Sound.shrink (h : r.Sound) {g : Graph} (hg : g.WellFormed) (hnextNode : g.nextNode = r.graph.nextNode)
    (hnextEdge : g.nextEdge = r.graph.nextEdge)
    (hnodes : ∀ m ∈ g.nodes, ∃ n ∈ r.graph.nodes, m.id = n.id ∧ m.identity = n.identity)
    (hedges : ∀ e ∈ g.edges, ∃ f ∈ r.graph.edges, e.id = f.id ∧ e.identity = f.identity) :
    Sound { r with graph := g } := by
  refine ⟨hg, ?_, ?_⟩
  · rw [hnextNode]
    exact h.nodes.mono hnodes
  · rw [hnextEdge]
    exact h.edges.mono hedges

/-- An origin that lets go of edges gives none of their ids back. -/
theorem Sound.releaseAll (h : r.Sound) (ids : List Int) (o : String) :
    Sound { r with graph := r.graph.releaseAll ids o } := by
  refine h.shrink (h.graph.releaseAll ids o) (by simp) (by simp) ?_ ?_
  · intro m hm
    rw [releaseAll_nodes] at hm
    exact ⟨m, hm, rfl, rfl⟩
  · exact fun e he => exists_of_mem_releaseAll h.graph he

theorem Sound.perform (h : r.Sound) (operation : Operation) : (operation.perform r).Sound := by
  have hkept : ∀ e ∈ r.graph.edges, ∃ f ∈ r.graph.edges, e.id = f.id ∧ e.identity = f.identity :=
    fun e he => ⟨e, he, rfl, rfl⟩
  cases operation with
  | upsertNode n => exact h.upsertNode n
  | ensureNode kind key => exact h.ensureNode kind key
  | demoteNode id =>
      refine h.shrink (h.graph.demoteNode id) rfl rfl ?_ hkept
      intro m hm
      rcases (mem_demoteNode r.graph id m).1 hm with ⟨hm, _⟩ | ⟨n, hn, _, rfl⟩
      · exact ⟨m, hm, rfl, rfl⟩
      · exact ⟨n, hn, rfl, rfl⟩
  | deleteNode id =>
      refine h.shrink (h.graph.deleteNode id) rfl rfl ?_ ?_
      · exact fun m hm => ⟨m, ((mem_deleteNode r.graph id m).1 hm).1, rfl, rfl⟩
      · exact fun e he => ⟨e, (List.mem_filter.1 he).1, rfl, rfl⟩
  | upsertEdge n => exact h.upsertEdge n
  | releaseEdge id origin => exact h.releaseAll [id] origin
  | deleteEdge id =>
      refine h.shrink (h.graph.deleteEdge id) rfl rfl ?_ ?_
      · exact fun m hm => ⟨m, hm, rfl, rfl⟩
      · exact fun e he => ⟨e, (List.mem_filter.1 he).1, rfl, rfl⟩
  | deleteEdgesHeldBy origin =>
      simp only [Operation.perform, deleteEdgesHeldBy_eq]
      exact h.releaseAll _ origin
  | clear =>
      refine h.shrink (wellFormed_clear _) rfl rfl ?_ ?_ <;> simp [Graph.clear]

theorem sound_performed (operations : List Operation) : (performed operations).Sound := by
  induction operations using List.reverseRecOn with
  | nil => exact sound_empty
  | append_singleton operations last ih =>
      rw [performed, List.foldl_append]
      exact ih.perform last

end Register

/-- After any operations on an empty graph it is well-formed: a node for each kind and key at most, an edge for each
kind and ends at most, and both ends of every edge exist. Who holds which edge is told alike from both sides, of edges
that exist. Writing what is there gives its id again, an edge with an unknown end is refused and changes nothing, and no
id was ever given to two nodes or two edges, be they deleted by now or not. -/
theorem ids_given_once (operations : List Operation) :
    (performed operations).graph.WellFormed ∧
    (∀ id o, o ∈ (performed operations).graph.holdersOf id ↔ id ∈ (performed operations).graph.edgesHeldBy o) ∧
    (∀ id o, o ∈ (performed operations).graph.holdersOf id → ∃ e ∈ (performed operations).graph.edges, e.id = id) ∧
    (∀ m ∈ (performed operations).graph.nodes, ∀ n : NewNode, n.identity = m.identity →
      ((performed operations).graph.upsertNode n).2 = m.id ∧
        (performed operations).graph.ensureNode n.kind n.key = ((performed operations).graph, m.id)) ∧
    (∀ e ∈ (performed operations).graph.edges, ∀ n : NewEdge, n.identity = e.identity →
      ∃ g, (performed operations).graph.upsertEdge n = .ok (g, e.id)) ∧
    (∀ n : NewEdge, ((∀ m ∈ (performed operations).graph.nodes, m.id ≠ n.source) ∨
        ∀ m ∈ (performed operations).graph.nodes, m.id ≠ n.target) →
      (performed operations).graph.upsertEdge n = .error (.storage .danglingReference) ∧
        performed (operations ++ [.upsertEdge n]) = performed operations) ∧
    (∀ id i j, (id, i) ∈ (performed operations).nodeIds → (id, j) ∈ (performed operations).nodeIds → i = j) ∧
    ∀ id i j, (id, i) ∈ (performed operations).edgeIds → (id, j) ∈ (performed operations).edgeIds → i = j := by
  have h := Register.sound_performed operations
  have hg := h.graph
  refine ⟨hg, ?_, ?_, ?_, ?_, ?_, h.nodes.once, h.edges.once⟩
  · intro id o
    rw [mem_holdersOf hg, mem_edgesHeldBy_iff]
  · intro id o ho
    obtain ⟨e, he, hid, _⟩ := (mem_holdersOf hg id o).1 ho
    exact ⟨e, he, hid⟩
  · intro m hm n hi
    have hname : (performed operations).graph.Names m.id n.identity := by
      rw [hi]
      exact names_of_mem hm
    exact ⟨upsertNode_snd_of_names hg hname, ensureNode_of_names hg hname⟩
  · intro e he n hi
    obtain ⟨⟨s, hs, hsid⟩, ⟨t, ht, htid⟩⟩ := hg.ends e he
    have hends : n.source = e.source ∧ n.target = e.target := by
      simp only [NewEdge.identity, Edge.identity, Prod.mk.injEq] at hi
      exact hi.2
    have hput := upsertEdge_eq_putEdge (g := (performed operations).graph) (n := n) (s := s.identity) (t := t.identity)
      ⟨s, hs, hsid.trans hends.1.symm, rfl⟩ ⟨t, ht, htid.trans hends.2.symm, rfl⟩
    rw [hput, ← putEdge_snd_of_mem hg he hi.symm]
    exact ⟨_, rfl⟩
  · intro n hmissing
    refine ⟨upsertEdge_of_missing hmissing, ?_⟩
    rw [performed, List.foldl_append]
    change (Operation.upsertEdge n).perform (performed operations) = performed operations
    simp only [Operation.perform, upsertEdge_of_missing hmissing]

/-- A class is written twice, deleted together with an edge, and written anew; then everything is cleared, and the class
and the edge come back. -/
def comingBack : List Operation :=
  [.upsertNode { kind := .classDecl, key := "A", source := .fromSource },
    .upsertNode { kind := .classDecl, key := "A", source := .fromSource },
    .ensureNode .classDecl "B",
    .upsertEdge { kind := .inherits, source := 1, target := 3, origin := some "a.rb" },
    .deleteNode 1,
    .upsertNode { kind := .classDecl, key := "A", source := .fromSource },
    .clear,
    .ensureNode .classDecl "A",
    .ensureNode .classDecl "B",
    .upsertEdge { kind := .inherits, source := 5, target := 6, origin := some "a.rb" }]

theorem ids_given_once_comingBack :
    ((performed comingBack).nodeIds =
        [(1, .classDecl, "A"), (1, .classDecl, "A"), (3, .classDecl, "B"), (4, .classDecl, "A"), (5, .classDecl, "A"),
          (6, .classDecl, "B")] ∧
      (performed comingBack).edgeIds = [(1, .inherits, 1, 3), (2, .inherits, 5, 6)]) ∧
    ((performed comingBack).graph.upsertNode { kind := .classDecl, key := "A", source := .fromSource }).2 = 5 ∧
    (∃ g, (performed comingBack).graph.upsertEdge { kind := .inherits, source := 5, target := 6 } = .ok (g, 2)) ∧
    (2 ∈ (performed comingBack).graph.edgesHeldBy "a.rb" ∧ ∃ e ∈ (performed comingBack).graph.edges, e.id = 2) ∧
    performed (comingBack ++ [.upsertEdge { kind := .inherits, source := 1, target := 6 }]) = performed comingBack := by
  obtain ⟨_, hheld, hrow, hnode, hedge, hmissing, _, _⟩ := ids_given_once comingBack
  have hA : ∃ m ∈ (performed comingBack).graph.nodes, m.id = 5 ∧ m.identity = (.classDecl, "A") := by
    decide +kernel
  have hAB : ∃ e ∈ (performed comingBack).graph.edges, e.id = 2 ∧ e.identity = (.inherits, 5, 6) := by
    decide +kernel
  have ho : "a.rb" ∈ (performed comingBack).graph.holdersOf 2 := by
    decide +kernel
  refine ⟨by decide +kernel, ?_, ?_, ⟨(hheld 2 "a.rb").1 ho, hrow 2 "a.rb" ho⟩, ?_⟩
  · obtain ⟨m, hm, hid, hi⟩ := hA
    rw [← hid]
    exact (hnode m hm { kind := .classDecl, key := "A", source := .fromSource } hi.symm).1
  · obtain ⟨e, he, hid, hi⟩ := hAB
    rw [← hid]
    exact hedge e he { kind := .inherits, source := 5, target := 6 } hi.symm
  · refine (hmissing _ (Or.inl ?_)).2
    decide +kernel

end Graph

end CodeAtlas
