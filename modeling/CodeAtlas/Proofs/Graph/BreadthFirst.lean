import CodeAtlas.Proofs.Graph.Neighborhood
import CodeAtlas.Proofs.Graph.Operation
import Mathlib.Data.Nat.Find
import Mathlib.Order.Bounds.Basic
/-!
# Neighbourhoods are balls

An `Exploration` says where to start, which edges to follow and in which direction; the distance of a node is then the
length of a shortest walk to it. A neighbourhood of some depth holds exactly the nodes up to that distance, by distance
and then by the first edge that reaches them, and exactly the edges that can be followed from nodes that are nearer than
that (`neighbors_isBall`). The search finds one distance after the other: after `n` levels it has found what
`Explored n` says, and its frontier holds the nodes at the distance `n`.
-/

namespace CodeAtlas.Graph

/-! ## Edges in the order of their ids -/

/-- Edges stand in the order in which they got their ids. -/
def InOrder (g : Graph) : Prop := g.edges.Pairwise fun e f => e.id < f.id

theorem InOrder.sublist {g g' : Graph} (h : g.InOrder) (hids : (g'.edges.map Edge.id).Sublist (g.edges.map Edge.id)) :
    g'.InOrder := by
  have hsorted : (g.edges.map Edge.id).Pairwise (· < ·) := List.pairwise_map.2 h
  exact List.pairwise_map.1 (hsorted.sublist hids)

theorem InOrder.putEdge {g : Graph} (h : g.InOrder) (hg : g.WellFormed) (n : NewEdge) : (g.putEdge n).1.InOrder := by
  unfold Graph.putEdge
  split
  next old _ =>
    have hids : (g.edges.map fun e => if e.id = old.id then n.stored e.id e.holders else e).map Edge.id =
        g.edges.map Edge.id := by
      rw [List.map_map]
      refine List.map_congr_left fun e _ => ?_
      rw [Function.comp_apply]
      split <;> rfl
    exact h.sublist (hids ▸ List.Sublist.refl _)
  next =>
    refine List.pairwise_append.2 ⟨h, List.pairwise_singleton _ _, ?_⟩
    intro e he f hf
    rw [List.mem_singleton.1 hf]
    exact hg.edgesBelow e he

theorem InOrder.releaseAll {g : Graph} (h : g.InOrder) (hg : g.WellFormed) (ids : List Int) (o : String) :
    (g.releaseAll ids o).InOrder := by
  refine h.sublist ?_
  rw [releaseAll_edges hg]
  refine map_filterMap_sublist ?_ _
  intro e e' he
  split at he
  · exact (Edge.released_eq_some he).1
  · rw [Option.some.inj he]

/-- Whatever is done to an empty graph, its edges stand in the order of their ids. -/
theorem inOrder_performed (operations : List Operation) : (performed operations).graph.InOrder := by
  induction operations using List.reverseRecOn with
  | nil => exact .nil
  | append_singleton operations last ih =>
      have hg := (Register.sound_performed operations).graph
      rw [performed, List.foldl_append]
      change (last.perform (performed operations)).graph.InOrder
      cases last with
      | upsertNode n => exact ih.sublist (by simp [Operation.perform])
      | ensureNode kind key => exact ih.sublist (by simp [Operation.perform])
      | demoteNode id => exact ih
      | deleteNode id => exact ih.sublist (List.filter_sublist.map _)
      | upsertEdge n =>
          rcases upsertEdge_cases (performed operations).graph n with ⟨_, _, _, _, heq⟩ | heq
          · simp only [Operation.perform, heq]
            exact ih.putEdge hg n
          · simp only [Operation.perform, heq]
            exact ih
      | releaseEdge id origin => exact ih.releaseAll hg [id] origin
      | deleteEdge id => exact ih.sublist (List.filter_sublist.map _)
      | deleteEdgesHeldBy origin =>
          simp only [Operation.perform, deleteEdgesHeldBy_eq]
          exact ih.releaseAll hg _ origin
      | clear => exact .nil

/-! ## Explorations -/

/-- A way to explore a graph: where to start, which kinds of edges to follow (all, if none is named) and in which
direction. -/
structure Exploration where
  graph : Graph
  start : Int
  kinds : List EdgeKind
  direction : Direction

namespace Exploration

/-- An edge of the graph can be followed from `a` to `b`. -/
structure Follows (x : Exploration) (e : Edge) (a b : Int) : Prop where
  mem : e ∈ x.graph.edges
  allowed : x.kinds = [] ∨ e.kind ∈ x.kinds
  leads : (x.direction ≠ .inward ∧ e.source = a ∧ e.target = b) ∨ (x.direction ≠ .outward ∧ e.target = a ∧ e.source = b)

/-- A node can be reached in `n` steps. -/
inductive Walk (x : Exploration) : Nat → Int → Prop
  | start : Walk x 0 x.start
  | step {n : Nat} {a b : Int} {e : Edge} : Walk x n a → x.Follows e a b → Walk x (n + 1) b

/-- The shortest walk to a node has `n` steps. -/
def Distance (x : Exploration) (id : Int) (n : Nat) : Prop := IsLeast {m | x.Walk m id} n

/-- Of the edges that lead to a node from the distance `n`, the one with the smallest id has the id `i`. -/
def ReachedBy (x : Exploration) (id : Int) (n : Nat) (i : Int) : Prop :=
  IsLeast {i | ∃ e a, x.Distance a n ∧ x.Follows e a id ∧ e.id = i} i

/-- The nearest node from which an edge can be followed is at the distance `n`. -/
def FollowedAt (x : Exploration) (e : Edge) (n : Nat) : Prop := IsLeast {n | ∃ a b, x.Distance a n ∧ x.Follows e a b} n

/-- Nodes in the order of discovery. -/
inductive NodeBefore (x : Exploration) (a b : Int) : Prop
  | nearer {j k : Nat} : x.Distance a j → x.Distance b k → j < k → NodeBefore x a b
  | sooner {n : Nat} {i j : Int} : x.Distance a (n + 1) → x.Distance b (n + 1) → x.ReachedBy a n i → x.ReachedBy b n j →
      i < j → NodeBefore x a b

/-- Edges in the order in which they are followed. -/
inductive EdgeBefore (x : Exploration) (e f : Edge) : Prop
  | nearer {j k : Nat} : x.FollowedAt e j → x.FollowedAt f k → j < k → EdgeBefore x e f
  | sooner {n : Nat} : x.FollowedAt e n → x.FollowedAt f n → e.id < f.id → EdgeBefore x e f

variable {x : Exploration}

/-! ## Distances -/

theorem exists_isLeast {P : Nat → Prop} {m : Nat} (h : P m) : ∃ k ≤ m, IsLeast {n | P n} k := by
  classical
  exact ⟨Nat.find ⟨m, h⟩, Nat.find_min' _ h, Nat.find_spec ⟨m, h⟩, fun n hn => Nat.find_min' _ hn⟩

theorem distance_start : x.Distance x.start 0 := ⟨.start, fun _ _ => Nat.zero_le _⟩

theorem distance_zero_iff {id : Int} : x.Distance id 0 ↔ id = x.start := by
  constructor
  · rintro ⟨hwalk, -⟩
    cases hwalk
    rfl
  · rintro rfl
    exact distance_start

/-- The nodes at the next distance are those that an edge leads to and that are not nearer. -/
theorem distance_succ_iff {b : Int} {n : Nat} :
    x.Distance b (n + 1) ↔ (∃ a e, x.Distance a n ∧ x.Follows e a b) ∧ ∀ k ≤ n, ¬x.Distance b k := by
  constructor
  · intro h
    refine ⟨?_, fun k hk hnear => absurd (hnear.unique h) (by omega)⟩
    cases h.1 with
    | @step _ a _ e hwalk hfollows =>
        refine ⟨a, e, ⟨hwalk, ?_⟩, hfollows⟩
        intro m hm
        exact Nat.le_of_succ_le_succ (h.2 (Walk.step hm hfollows))
  · rintro ⟨⟨a, e, ha, hfollows⟩, hfar⟩
    refine ⟨Walk.step ha.1 hfollows, ?_⟩
    intro m hm
    obtain ⟨k, hk, hnear⟩ := exists_isLeast (P := fun m => x.Walk m b) hm
    by_contra hlt
    exact hfar k (by omega) hnear

/-- An edge has only two ends to be followed from. -/
theorem Follows.eq_or_swap {e : Edge} {a b c d : Int} (h : x.Follows e a b) (h' : x.Follows e c d) :
    (c = a ∧ d = b) ∨ (c = b ∧ d = a) := by
  rcases h.leads with ⟨-, rfl, rfl⟩ | ⟨-, rfl, rfl⟩
  · rcases h'.leads with ⟨-, rfl, rfl⟩ | ⟨-, rfl, rfl⟩
    · exact Or.inl ⟨rfl, rfl⟩
    · exact Or.inr ⟨rfl, rfl⟩
  · rcases h'.leads with ⟨-, rfl, rfl⟩ | ⟨-, rfl, rfl⟩
    · exact Or.inr ⟨rfl, rfl⟩
    · exact Or.inl ⟨rfl, rfl⟩

/-- An edge that leads to a node at the next distance was not followed before. -/
theorem followedAt_of_distance {e : Edge} {a b : Int} {n : Nat} (ha : x.Distance a n) (hb : x.Distance b (n + 1))
    (h : x.Follows e a b) : x.FollowedAt e n := by
  refine ⟨⟨a, b, ha, h⟩, ?_⟩
  rintro k ⟨c, d, hc, hcd⟩
  rcases h.eq_or_swap hcd with ⟨rfl, -⟩ | ⟨rfl, -⟩
  · exact (ha.unique hc).le
  · have := hb.unique hc
    omega

/-! ## The order of discovery -/

theorem discover_cons (known found : List Int) (id : Int) (rest : List Int) :
    discover known found (id :: rest) =
      discover known (if id ∈ known ∨ id ∈ found then found else found ++ [id]) rest := by
  simp only [discover, List.foldl_cons, Bool.or_eq_true, List.contains_iff_mem]

/-- A list of ids of which at most one is unknown adds at most one. -/
theorem discover_cases {known found ids : List Int} (hone : ∀ a ∈ ids, ∀ b ∈ ids, a ∉ known → b ∉ known → a = b) :
    discover known found ids = found ∨ ∃ a ∈ ids, a ∉ known ∧ a ∉ found ∧ discover known found ids = found ++ [a] := by
  induction ids generalizing found with
  | nil => exact Or.inl rfl
  | cons id rest ih =>
      have hrest : ∀ a ∈ rest, ∀ b ∈ rest, a ∉ known → b ∉ known → a = b := fun a ha b hb =>
        hone a (List.mem_cons_of_mem _ ha) b (List.mem_cons_of_mem _ hb)
      rw [discover_cons]
      by_cases hold : id ∈ known ∨ id ∈ found
      · rw [if_pos hold]
        rcases @ih found hrest with heq | ⟨a, ha, hadded⟩
        · exact Or.inl heq
        · exact Or.inr ⟨a, List.mem_cons_of_mem _ ha, hadded⟩
      · rw [if_neg hold]
        rw [not_or] at hold
        refine Or.inr ⟨id, List.mem_cons_self, hold.1, hold.2, ?_⟩
        rcases @ih (found ++ [id]) hrest with heq | ⟨a, ha, hunknown, hunfound, -⟩
        · exact heq
        · have hsame := hone a (List.mem_cons_of_mem _ ha) id List.mem_cons_self hunknown hold.1
          exact absurd (hsame ▸ List.mem_append_right _ (List.mem_singleton_self _)) hunfound

/-- Of the edges of a list that lead to a node, the one with the smallest id has the id `i`. -/
def FirstOf (edges : List Edge) (ends : Edge → List Int) (id i : Int) : Prop :=
  IsLeast {i | ∃ e ∈ edges, id ∈ ends e ∧ e.id = i} i

section

variable {known : List Int} {ends : Edge → List Int} {edges : List Edge} {last : Edge}

/-- A later edge is never the first that leads to a node. -/
theorem FirstOf.append (hlast : ∀ e ∈ edges, e.id < last.id) {id i : Int} (h : FirstOf edges ends id i) :
    FirstOf (edges ++ [last]) ends id i := by
  obtain ⟨⟨e, he, hid, rfl⟩, hleast⟩ := h
  refine ⟨⟨e, List.mem_append_left _ he, hid, rfl⟩, ?_⟩
  rintro j ⟨f, hf, hid', rfl⟩
  rcases List.mem_append.1 hf with hf | hf
  · exact hleast ⟨f, hf, hid', rfl⟩
  · rw [List.mem_singleton.1 hf]
    exact (hlast e he).le

theorem firstOf_last {id : Int} (hid : id ∈ ends last) (hnew : ∀ e ∈ edges, id ∉ ends e) :
    FirstOf (edges ++ [last]) ends id last.id := by
  refine ⟨⟨last, List.mem_append_right _ (List.mem_singleton_self _), hid, rfl⟩, ?_⟩
  rintro j ⟨f, hf, hid', rfl⟩
  rcases List.mem_append.1 hf with hf | hf
  · exact absurd hid' (hnew f hf)
  · rw [List.mem_singleton.1 hf]

theorem exists_firstOf (hsorted : edges.Pairwise fun e f => e.id < f.id) {id : Int} (h : ∃ e ∈ edges, id ∈ ends e) :
    ∃ e ∈ edges, FirstOf edges ends id e.id := by
  induction edges using List.reverseRecOn with
  | nil => simp at h
  | append_singleton edges last ih =>
      obtain ⟨hsorted, -, hlast⟩ := List.pairwise_append.1 hsorted
      by_cases hold : ∃ e ∈ edges, id ∈ ends e
      · obtain ⟨e, he, hfirst⟩ := ih hsorted hold
        exact ⟨e, List.mem_append_left _ he, hfirst.append fun f hf => hlast f hf last (List.mem_singleton_self _)⟩
      · obtain ⟨e, he, hid⟩ := h
        have hnew : ∀ e ∈ edges, id ∉ ends e := fun e he hid => hold ⟨e, he, hid⟩
        rcases List.mem_append.1 he with he | he
        · exact absurd hid (hnew e he)
        · rw [List.mem_singleton.1 he] at hid
          exact ⟨last, List.mem_append_right _ (List.mem_singleton_self _), firstOf_last hid hnew⟩

/-- Nodes are found in the order of the first edges that lead to them. -/
theorem pairwise_foldl_discover (hsorted : edges.Pairwise fun e f => e.id < f.id)
    (hone : ∀ e ∈ edges, ∀ a ∈ ends e, ∀ b ∈ ends e, a ∉ known → b ∉ known → a = b) :
    (edges.foldl (fun found e => discover known found (ends e)) []).Pairwise fun a b =>
      ∃ i j, FirstOf edges ends a i ∧ FirstOf edges ends b j ∧ i < j := by
  induction edges using List.reverseRecOn with
  | nil => exact .nil
  | append_singleton edges last ih =>
      obtain ⟨hsorted, -, hlast⟩ := List.pairwise_append.1 hsorted
      replace hlast : ∀ e ∈ edges, e.id < last.id := fun e he => hlast e he last (List.mem_singleton_self _)
      have hearlier : (edges.foldl (fun found e => discover known found (ends e)) []).Pairwise fun a b =>
          ∃ i j, FirstOf (edges ++ [last]) ends a i ∧ FirstOf (edges ++ [last]) ends b j ∧ i < j := by
        refine (ih hsorted fun e he => hone e (List.mem_append_left _ he)).imp ?_
        rintro a b ⟨i, j, hi, hj, hlt⟩
        exact ⟨i, j, hi.append hlast, hj.append hlast, hlt⟩
      rw [List.foldl_append, List.foldl_cons, List.foldl_nil]
      rcases discover_cases (hone last (List.mem_append_right _ (List.mem_singleton_self _))) with
        heq | ⟨b, hb, hunknown, hunfound, heq⟩
      · rw [heq]
        exact hearlier
      · rw [heq]
        refine List.pairwise_append.2 ⟨hearlier, List.pairwise_singleton _ _, ?_⟩
        intro a ha b' hb'
        rw [List.mem_singleton.1 hb']
        have hnew : ∀ e ∈ edges, b ∉ ends e := fun e he hbe =>
          hunfound (mem_foldl_discover.2 (Or.inr ⟨e, he, hbe, hunknown⟩))
        obtain ⟨e, he, hae, -⟩ := (mem_foldl_discover.1 ha).resolve_left List.not_mem_nil
        obtain ⟨f, hf, hfirst⟩ := exists_firstOf hsorted ⟨e, he, hae⟩
        exact ⟨f.id, last.id, hfirst.append hlast, firstOf_last hb hnew, hlast f hf⟩

end

/-! ## One level -/

theorem mem_reached_iff {e : Edge} {frontier : List Int} {b : Int} (he : e ∈ x.graph.edges)
    (hallowed : allows x.kinds e = true) :
    b ∈ reached x.direction frontier e ↔ ∃ a ∈ frontier, x.Follows e a b := by
  have hkinds : x.kinds = [] ∨ e.kind ∈ x.kinds := by simpa [allows] using hallowed
  simp only [reached, List.mem_append, List.mem_ite_nil_right, List.mem_singleton, Bool.and_eq_true, decide_eq_true_eq,
    List.contains_iff_mem]
  constructor
  · rintro (⟨⟨hdirection, hsource⟩, rfl⟩ | ⟨⟨hdirection, htarget⟩, rfl⟩)
    · exact ⟨e.source, hsource, he, hkinds, Or.inl ⟨hdirection, rfl, rfl⟩⟩
    · exact ⟨e.target, htarget, he, hkinds, Or.inr ⟨hdirection, rfl, rfl⟩⟩
  · rintro ⟨a, ha, hfollows⟩
    rcases hfollows.leads with ⟨hdirection, rfl, rfl⟩ | ⟨hdirection, rfl, rfl⟩
    · exact Or.inl ⟨⟨hdirection, ha⟩, rfl⟩
    · exact Or.inr ⟨⟨hdirection, ha⟩, rfl⟩

/-- What has been found after `n` levels. -/
structure Explored (x : Exploration) (n : Nat) (s : Search) : Prop where
  nodes : ∀ id, id ∈ s.nodes ↔ ∃ k ≤ n, x.Distance id k
  frontier : ∀ id, id ∈ s.frontier ↔ x.Distance id n
  edges : ∀ e, e ∈ s.edges ↔ ∃ k < n, x.FollowedAt e k
  first : s.nodes.head? = some x.start
  nodeOrder : s.nodes.Pairwise x.NodeBefore
  edgeOrder : s.edges.Pairwise x.EdgeBefore

theorem explored_start : x.Explored 0 { nodes := [x.start], frontier := [x.start] } := by
  constructor <;> simp [distance_zero_iff]

variable {s : Search} {n : Nat}

/-- The edges of a level are those that can be followed from it and from no nearer node. -/
theorem Explored.mem_levelEdges (hs : x.Explored n s) (hg : x.graph.WellFormed) {e : Edge} :
    e ∈ x.graph.levelEdges x.kinds x.direction s ↔ x.FollowedAt e n := by
  have hnew : e ∈ x.graph.edges → (s.edges.any (·.id = e.id) = true ↔ e ∈ s.edges) := by
    intro he
    rw [List.any_eq_true]
    constructor
    · rintro ⟨f, hf, hid⟩
      obtain ⟨k, -, hk⟩ := (hs.edges f).1 hf
      obtain ⟨a, b, -, hfollows⟩ := hk.1
      rwa [← hg.edge_eq_of_id hfollows.mem he (of_decide_eq_true hid)]
    · exact fun he => ⟨e, he, decide_eq_true rfl⟩
  rw [levelEdges, List.mem_filter, Bool.and_eq_true, Bool.and_eq_true, Bool.not_eq_true', Bool.not_eq_true',
    List.isEmpty_eq_false_iff_exists_mem]
  constructor
  · rintro ⟨he, ⟨hallowed, b, hb⟩, hunseen⟩
    obtain ⟨a, ha, hfollows⟩ := (mem_reached_iff he hallowed).1 hb
    refine ⟨⟨a, b, (hs.frontier a).1 ha, hfollows⟩, ?_⟩
    intro k hk
    -- an edge followed from a nearer node has been listed
    by_contra hlt
    obtain ⟨j, hj, hleast⟩ := exists_isLeast (P := fun k => ∃ a b, x.Distance a k ∧ x.Follows e a b) hk
    have hseen := (hnew he).2 ((hs.edges e).2 ⟨j, by omega, hleast⟩)
    rw [hunseen] at hseen
    exact absurd hseen (by simp)
  · intro h
    obtain ⟨a, b, ha, hfollows⟩ := h.1
    have hallowed : allows x.kinds e = true := by simpa [allows] using hfollows.allowed
    have hreached := (mem_reached_iff hfollows.mem hallowed).2 ⟨a, (hs.frontier a).2 ha, hfollows⟩
    refine ⟨hfollows.mem, ⟨hallowed, b, hreached⟩, ?_⟩
    rw [Bool.eq_false_iff, ne_eq, hnew hfollows.mem, hs.edges]
    rintro ⟨k, hk, hk'⟩
    have := h.unique hk'
    omega

/-- What an edge of a level leads to. -/
theorem Explored.mem_reached (hs : x.Explored n s) {e : Edge} {b : Int}
    (he : e ∈ x.graph.levelEdges x.kinds x.direction s) :
    b ∈ reached x.direction s.frontier e ↔ ∃ a, x.Distance a n ∧ x.Follows e a b := by
  have hallowed : allows x.kinds e = true := by
    simp only [levelEdges, List.mem_filter, Bool.and_eq_true] at he
    exact he.2.1.1
  rw [mem_reached_iff (List.mem_filter.1 he).1 hallowed]
  simp only [hs.frontier]

theorem Explored.mem_frontier_expand (hs : x.Explored n s) (hg : x.graph.WellFormed) {id : Int} :
    id ∈ (x.graph.expand x.kinds x.direction s).frontier ↔ x.Distance id (n + 1) := by
  have hfar : id ∉ s.nodes ↔ ∀ k ≤ n, ¬x.Distance id k := by
    simp only [hs.nodes, not_exists, not_and]
  rw [expand]
  dsimp only
  rw [mem_foldl_discover]
  constructor
  · rintro (h | ⟨e, he, hid, hnew⟩)
    · exact absurd h List.not_mem_nil
    · obtain ⟨a, ha, hfollows⟩ := (hs.mem_reached he).1 hid
      exact distance_succ_iff.2 ⟨⟨a, e, ha, hfollows⟩, hfar.1 hnew⟩
  · intro h
    obtain ⟨⟨a, e, ha, hfollows⟩, hnew⟩ := distance_succ_iff.1 h
    have he := (hs.mem_levelEdges hg).2 (followedAt_of_distance ha h hfollows)
    exact Or.inr ⟨e, he, (hs.mem_reached he).2 ⟨a, ha, hfollows⟩, hfar.2 hnew⟩

/-- The new nodes of a level stand in the order of the edges that reach them. -/
theorem Explored.pairwise_frontier_expand (hs : x.Explored n s) (hg : x.graph.WellFormed)
    (horder : x.graph.InOrder) :
    (x.graph.expand x.kinds x.direction s).frontier.Pairwise x.NodeBefore := by
  -- an edge with both ends on the level leads to no new node, any other to one
  have hone : ∀ e ∈ x.graph.levelEdges x.kinds x.direction s, ∀ a ∈ reached x.direction s.frontier e,
      ∀ b ∈ reached x.direction s.frontier e, a ∉ s.nodes → b ∉ s.nodes → a = b := by
    intro e he a ha b hb hnew _
    obtain ⟨c, hc, hca⟩ := (hs.mem_reached he).1 ha
    obtain ⟨d, hd, hdb⟩ := (hs.mem_reached he).1 hb
    rcases hca.eq_or_swap hdb with ⟨-, rfl⟩ | ⟨rfl, -⟩
    · rfl
    · exact absurd ((hs.nodes d).2 ⟨n, le_rfl, hd⟩) hnew
  have hfirst : ∀ {a i : Int}, x.Distance a (n + 1) →
      FirstOf (x.graph.levelEdges x.kinds x.direction s) (reached x.direction s.frontier) a i → x.ReachedBy a n i := by
    intro a i ha hfirst
    have hset : {i | ∃ e a', x.Distance a' n ∧ x.Follows e a' a ∧ e.id = i} =
        {i | ∃ e ∈ x.graph.levelEdges x.kinds x.direction s, a ∈ reached x.direction s.frontier e ∧ e.id = i} := by
      ext j
      constructor
      · rintro ⟨e, c, hc, hfollows, rfl⟩
        have he := (hs.mem_levelEdges hg).2 (followedAt_of_distance hc ha hfollows)
        exact ⟨e, he, (hs.mem_reached he).2 ⟨c, hc, hfollows⟩, rfl⟩
      · rintro ⟨e, he, hae, rfl⟩
        obtain ⟨c, hc, hfollows⟩ := (hs.mem_reached he).1 hae
        exact ⟨e, c, hc, hfollows, rfl⟩
    rw [ReachedBy, hset]
    exact hfirst
  refine (pairwise_foldl_discover (List.Pairwise.filter _ horder) hone).imp_of_mem ?_
  rintro a b ha hb ⟨i, j, hi, hj, hlt⟩
  have hadistance := (hs.mem_frontier_expand hg).1 ha
  have hbdistance := (hs.mem_frontier_expand hg).1 hb
  exact .sooner hadistance hbdistance (hfirst hadistance hi) (hfirst hbdistance hj) hlt

/-- One more level finds the next distance. -/
theorem Explored.expand (hs : x.Explored n s) (hg : x.graph.WellFormed)
    (horder : x.graph.InOrder) : x.Explored (n + 1) (x.graph.expand x.kinds x.direction s) := by
  have hfrontier : ∀ id, id ∈ (x.graph.expand x.kinds x.direction s).frontier ↔ x.Distance id (n + 1) := fun id =>
    hs.mem_frontier_expand hg
  have hnodes : (x.graph.expand x.kinds x.direction s).nodes =
      s.nodes ++ (x.graph.expand x.kinds x.direction s).frontier := rfl
  have hedges : (x.graph.expand x.kinds x.direction s).edges =
      s.edges ++ x.graph.levelEdges x.kinds x.direction s := rfl
  constructor
  · intro id
    rw [hnodes, List.mem_append, hs.nodes, hfrontier]
    simp only [← Nat.lt_succ_iff, Nat.succ_eq_add_one]
    rw [Nat.exists_lt_succ_right (n := n + 1)]
  · exact hfrontier
  · intro e
    rw [hedges, List.mem_append, hs.edges, hs.mem_levelEdges hg, Nat.exists_lt_succ_right]
  · rw [hnodes, List.head?_append, hs.first, Option.some_or]
  · rw [hnodes]
    refine List.pairwise_append.2 ⟨hs.nodeOrder, hs.pairwise_frontier_expand hg horder, ?_⟩
    intro a ha b hb
    obtain ⟨k, hk, hdistance⟩ := (hs.nodes a).1 ha
    exact .nearer hdistance ((hfrontier b).1 hb) (Nat.lt_succ_of_le hk)
  · rw [hedges]
    refine List.pairwise_append.2 ⟨hs.edgeOrder, ?_, ?_⟩
    · refine (List.Pairwise.filter _ horder).imp_of_mem ?_
      intro e f he hf hlt
      exact .sooner ((hs.mem_levelEdges hg).1 he) ((hs.mem_levelEdges hg).1 hf) hlt
    · intro e he f hf
      obtain ⟨k, hk, hlevel⟩ := (hs.edges e).1 he
      exact .nearer hlevel ((hs.mem_levelEdges hg).1 hf) hk

theorem Explored.expandTimes (hs : x.Explored n s) (hg : x.graph.WellFormed)
    (horder : x.graph.InOrder) (more : Nat) :
    x.Explored (n + more) (x.graph.expandTimes x.kinds x.direction more s) := by
  induction more generalizing n s with
  | zero => exact hs
  | succ more ih =>
      rw [Nat.add_succ, ← Nat.succ_add]
      exact ih (hs.expand hg horder)

/-! ## Neighbourhoods -/

/-- A neighbourhood holds what lies within a distance, in the order of discovery. -/
structure IsBall (x : Exploration) (depth : Nat) (hood : Neighborhood) : Prop where
  nodes : ∀ n, n ∈ hood.nodes ↔ n ∈ x.graph.nodes ∧ ∃ k ≤ depth, x.Distance n.id k
  nodesOnce : hood.nodes.Nodup
  first : hood.nodes.head?.map Node.id = some x.start
  nodeOrder : hood.nodes.Pairwise fun m n => x.NodeBefore m.id n.id
  edges : ∀ e, e ∈ hood.edges ↔ ∃ k < depth, ∃ a b, x.Distance a k ∧ x.Follows e a b
  edgesOnce : hood.edges.Nodup
  edgeOrder : hood.edges.Pairwise x.EdgeBefore

theorem NodeBefore.ne {a b : Int} (h : x.NodeBefore a b) : a ≠ b := by
  rintro rfl
  cases h with
  | nearer hj hk hlt => exact hlt.ne (hj.unique hk)
  | sooner _ _ hi hj hlt => exact hlt.ne (hi.unique hj)

theorem EdgeBefore.ne {e f : Edge} (h : x.EdgeBefore e f) : e ≠ f := by
  rintro rfl
  cases h with
  | nearer hj hk hlt => exact hlt.ne (hj.unique hk)
  | sooner _ _ hlt => exact lt_irrefl _ hlt

theorem Explored.isBall (hs : x.Explored n s) (hg : x.graph.WellFormed) {first : Node}
    (hfirst : x.graph.node? x.start = some first) (depth : Nat) :
    x.IsBall n
      { start := x.start, depth := depth, nodes := s.nodes.filterMap x.graph.node?, edges := s.edges } := by
  have horder : (s.nodes.filterMap x.graph.node?).Pairwise fun m n => x.NodeBefore m.id n.id := by
    refine List.pairwise_filterMap.2 (hs.nodeOrder.imp ?_)
    intro a b hab m hm n hn
    rw [((node?_eq_some_iff hg a m).1 hm).2, ((node?_eq_some_iff hg b n).1 hn).2]
    exact hab
  refine ⟨?_, horder.imp fun h => ?_, ?_, horder, ?_, hs.edgeOrder.imp EdgeBefore.ne, hs.edgeOrder⟩
  · intro m
    simp only [List.mem_filterMap, node?_eq_some_iff hg, hs.nodes]
    constructor
    · rintro ⟨id, hid, hm, rfl⟩
      exact ⟨hm, hid⟩
    · rintro ⟨hm, hid⟩
      exact ⟨m.id, hid, hm, rfl⟩
  · rintro rfl
    exact h.ne rfl
  · obtain ⟨rest, hrest⟩ := List.head?_eq_some_iff.1 hs.first
    dsimp only
    rw [hrest, List.filterMap_cons_some hfirst, List.head?_cons, Option.map_some,
      ((node?_eq_some_iff hg _ _).1 hfirst).2]
  · intro e
    rw [hs.edges]
    constructor
    · rintro ⟨k, hk, he⟩
      exact ⟨k, hk, he.1⟩
    · rintro ⟨k, hk, he⟩
      obtain ⟨j, hj, hleast⟩ := exists_isLeast (P := fun k => ∃ a b, x.Distance a k ∧ x.Follows e a b) he
      exact ⟨j, hj.trans_lt hk, hleast⟩

end Exploration

theorem clampDepth_eq (depth : Nat) : clampDepth depth = min (max depth 1) 3 := by
  unfold clampDepth maxDepth
  omega

/-- The neighbourhood of a node holds the nodes up to a distance, which is the depth asked for brought between one and
three, and the edges that can be followed from nearer nodes. A node that is not there has none. -/
theorem neighbors_isBall {g : Graph} (hg : g.WellFormed) (horder : g.InOrder) (start : Int) (kinds : List EdgeKind)
    (direction : Direction) (depth : Nat) :
    ((∃ n ∈ g.nodes, n.id = start) →
      ∃ hood, g.neighbors start kinds direction depth = .ok hood ∧ hood.start = start ∧
        hood.depth = min (max depth 1) 3 ∧ Exploration.IsBall ⟨g, start, kinds, direction⟩ (min (max depth 1) 3) hood) ∧
    ((∀ n ∈ g.nodes, n.id ≠ start) →
      g.neighbors start kinds direction depth = .error (.notFound (.node (toString start)))) := by
  constructor
  · rintro ⟨first, hmem, hid⟩
    have hfirst := (node?_eq_some_iff hg start first).2 ⟨hmem, hid⟩
    have hstart := Exploration.explored_start (x := ⟨g, start, kinds, direction⟩)
    have hexplored := hstart.expandTimes hg horder (clampDepth depth)
    rw [Nat.zero_add] at hexplored
    rw [← clampDepth_eq]
    refine ⟨_, ?_, rfl, rfl, hexplored.isBall hg hfirst (clampDepth depth)⟩
    rw [neighbors, hfirst]
  · intro hmissing
    have hnone : g.node? start = none := List.find?_eq_none.2 fun n hn => by simpa using hmissing n hn
    rw [neighbors, hnone]

/-- Five classes with a cycle, a loop, two edges between the same ends, and an edge whose ends are equally far from the
first class. -/
def crossing : List Operation :=
  [.ensureNode .classDecl "A", .ensureNode .classDecl "B", .ensureNode .classDecl "C", .ensureNode .classDecl "D",
    .ensureNode .classDecl "E",
    .upsertEdge { kind := .inherits, source := 2, target := 3 },
    .upsertEdge { kind := .hasMany, source := 1, target := 2 },
    .upsertEdge { kind := .hasMany, source := 1, target := 1 },
    .upsertEdge { kind := .belongsTo, source := 3, target := 1 },
    .upsertEdge { kind := .hasOne, source := 1, target := 2 },
    .upsertEdge { kind := .hasMany, source := 3, target := 4 },
    .upsertEdge { kind := .hasMany, source := 4, target := 5 }]

theorem neighbors_isBall_crossing :
    (performed crossing).graph.WellFormed ∧ (performed crossing).graph.InOrder ∧
    (∃ hood, (performed crossing).graph.neighbors 1 [] .both 2 = .ok hood ∧ hood.nodes.map Node.id = [1, 2, 3, 4] ∧
      hood.edges.map Edge.id = [2, 3, 4, 5, 1, 6] ∧
      Exploration.IsBall ⟨(performed crossing).graph, 1, [], .both⟩ 2 hood) ∧
    (performed crossing).graph.neighbors 9 [] .both 2 = .error (.notFound (.node "9")) := by
  have hg := (Register.sound_performed crossing).graph
  have horder := inOrder_performed crossing
  have hstart : ∃ n ∈ (performed crossing).graph.nodes, n.id = 1 := by decide +kernel
  have hmissing : ∀ n ∈ (performed crossing).graph.nodes, n.id ≠ 9 := by decide +kernel
  obtain ⟨hood, hhood, -, -, hball⟩ := (neighbors_isBall hg horder 1 [] .both 2).1 hstart
  have hids : ((performed crossing).graph.neighbors 1 [] .both 2).toOption.map
      (fun hood => (hood.nodes.map Node.id, hood.edges.map Edge.id)) = some ([1, 2, 3, 4], [2, 3, 4, 5, 1, 6]) := by
    decide +kernel
  rw [hhood] at hids
  obtain ⟨hnodes, hedges⟩ := Prod.mk.inj (Option.some.inj hids)
  exact ⟨hg, horder, ⟨hood, hhood, hnodes, hedges, hball⟩, (neighbors_isBall hg horder 9 [] .both 2).2 hmissing⟩

end CodeAtlas.Graph
