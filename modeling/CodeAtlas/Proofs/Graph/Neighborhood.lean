import CodeAtlas.Graph.Traversal
import CodeAtlas.Proofs.Graph.Identity
/-!
# What a neighbourhood is made of

A search never leaves the graph: `Search.Within` says that the ids found are those of nodes, that the edges followed are edges
of the graph and that both ends of each were found. One more level keeps this, so a neighbourhood holds its start, nodes of the
graph only, and the ends of all its edges.
-/

namespace CodeAtlas.Graph

theorem mem_discover {known found ids : List Int} {x : Int} :
    x ∈ discover known found ids ↔ x ∈ found ∨ (x ∈ ids ∧ x ∉ known) := by
  unfold discover
  induction ids generalizing found with
  | nil => simp
  | cons id rest ih =>
      rw [List.foldl_cons, ih]
      by_cases hknown : id ∈ known
      · rw [if_pos (by simp [hknown])]
        grind
      · by_cases hfound : id ∈ found
        · rw [if_pos (by simp [hfound])]
          grind
        · rw [if_neg (by simp [hknown, hfound])]
          grind

/-- What a level finds: the ends its edges lead to, if they were not known. -/
theorem mem_foldl_discover {known found : List Int} {edges : List Edge} {ends : Edge → List Int} {x : Int} :
    x ∈ edges.foldl (fun found e => discover known found (ends e)) found ↔
      x ∈ found ∨ ∃ e ∈ edges, x ∈ ends e ∧ x ∉ known := by
  induction edges generalizing found with
  | nil => simp
  | cons e rest ih =>
      rw [List.foldl_cons, ih, mem_discover]
      simp only [List.mem_cons, exists_eq_or_imp, or_assoc]

section

variable {direction : Direction} {frontier : List Int} {e : Edge}

theorem mem_reached {x : Int} (h : x ∈ reached direction frontier e) : x = e.source ∨ x = e.target := by
  simp only [reached, List.mem_append, List.mem_ite_nil_right, List.mem_singleton] at h
  rcases h with ⟨-, h⟩ | ⟨-, h⟩
  · exact Or.inr h
  · exact Or.inl h

/-- An edge that leads anywhere has each end on the level it was followed from, or leads there. -/
theorem mem_frontier_or_reached (h : (reached direction frontier e).isEmpty = false) :
    (e.source ∈ frontier ∨ e.source ∈ reached direction frontier e) ∧
      (e.target ∈ frontier ∨ e.target ∈ reached direction frontier e) := by
  unfold reached at h ⊢
  grind

end

/-- What was found lies in the graph, and both ends of the edges followed were found. -/
structure Search.Within (g : Graph) (s : Search) : Prop where
  nodes : ∀ id ∈ s.nodes, ∃ n ∈ g.nodes, n.id = id
  frontier : ∀ id ∈ s.frontier, id ∈ s.nodes
  edges : ∀ e ∈ s.edges, e ∈ g.edges
  ends : ∀ e ∈ s.edges, e.source ∈ s.nodes ∧ e.target ∈ s.nodes

section

variable {g : Graph} {kinds : List EdgeKind} {direction : Direction} {s : Search}

theorem mem_expand_nodes {id : Int} :
    id ∈ (g.expand kinds direction s).nodes ↔
      id ∈ s.nodes ∨ ∃ e ∈ g.levelEdges kinds direction s, id ∈ reached direction s.frontier e := by
  simp only [expand, List.mem_append, mem_foldl_discover, List.not_mem_nil, false_or]
  grind

theorem Search.Within.expand (hg : g.WellFormed) (hs : s.Within g) (kinds : List EdgeKind) (direction : Direction) :
    (g.expand kinds direction s).Within g := by
  have hlevel : ∀ e ∈ g.levelEdges kinds direction s, e ∈ g.edges := fun e he => (List.mem_filter.1 he).1
  constructor
  · intro id hid
    rcases mem_expand_nodes.1 hid with hid | ⟨e, he, hid⟩
    · exact hs.nodes id hid
    · obtain ⟨hsource, htarget⟩ := hg.ends e (hlevel e he)
      rcases mem_reached hid with rfl | rfl
      · exact hsource
      · exact htarget
  · intro id hid
    exact List.mem_append_right _ hid
  · intro e he
    rcases List.mem_append.1 he with he | he
    · exact hs.edges e he
    · exact hlevel e he
  · intro e he
    simp only [mem_expand_nodes]
    rcases List.mem_append.1 he with he | he
    · exact ⟨Or.inl (hs.ends e he).1, Or.inl (hs.ends e he).2⟩
    · have hleads : (reached direction s.frontier e).isEmpty = false := by
        have hallowed := (List.mem_filter.1 he).2
        simp only [Bool.and_eq_true, Bool.not_eq_true'] at hallowed
        exact hallowed.1.2
      obtain ⟨hsource, htarget⟩ := mem_frontier_or_reached hleads
      exact ⟨hsource.imp (hs.frontier _) fun h => ⟨e, he, h⟩, htarget.imp (hs.frontier _) fun h => ⟨e, he, h⟩⟩

theorem Search.Within.expandTimes (hg : g.WellFormed) (hs : s.Within g) (kinds : List EdgeKind) (direction : Direction)
    (depth : Nat) : (g.expandTimes kinds direction depth s).Within g := by
  induction depth generalizing s with
  | zero => exact hs
  | succ depth ih => exact ih (hs.expand hg kinds direction)

theorem subset_expandTimes (depth : Nat) : s.nodes ⊆ (g.expandTimes kinds direction depth s).nodes := by
  induction depth generalizing s with
  | zero => exact fun _ h => h
  | succ depth ih => exact fun id hid => ih (mem_expand_nodes.2 (Or.inl hid))

end

section

variable {g : Graph} {start : Int} {kinds : List EdgeKind} {direction : Direction} {depth : Nat} {hood : Neighborhood}

/-- The nodes of a neighbourhood are nodes of the graph. -/
theorem mem_nodes_of_neighbors (h : g.neighbors start kinds direction depth = .ok hood) {n : Node} (hn : n ∈ hood.nodes) :
    n ∈ g.nodes := by
  unfold neighbors at h
  split at h
  · cases h
  · cases h
    obtain ⟨id, _, hid⟩ := List.mem_filterMap.1 hn
    exact List.mem_of_find?_eq_some hid

/-- The start of a neighbourhood and the ends of its edges are nodes of it. -/
theorem node?_of_neighbors (hg : g.WellFormed) (h : g.neighbors start kinds direction depth = .ok hood) {id : Int}
    (hid : id = hood.start ∨ ∃ e ∈ hood.edges, id = e.source ∨ id = e.target) :
    ∃ n ∈ g.nodes, n.id = id ∧ hood.node? id = some n := by
  unfold neighbors at h
  split at h
  · cases h
  next first hfirst =>
    obtain ⟨hmem, hstart⟩ := (node?_eq_some_iff hg start first).1 hfirst
    have hbegin : ({ nodes := [start], frontier := [start] } : Search).Within g := by
      refine ⟨?_, by simp, by simp, by simp⟩
      simpa using ⟨first, hmem, hstart⟩
    have hwithin := hbegin.expandTimes hg kinds direction (clampDepth depth)
    cases h
    have hfound : id ∈ (g.expandTimes kinds direction (clampDepth depth) { nodes := [start], frontier := [start] }).nodes := by
      rcases hid with rfl | ⟨e, he, rfl | rfl⟩
      · exact subset_expandTimes _ List.mem_cons_self
      · exact (hwithin.ends e he).1
      · exact (hwithin.ends e he).2
    obtain ⟨n, hn, hnid⟩ := hwithin.nodes id hfound
    refine ⟨n, hn, hnid, ?_⟩
    -- ids are unique in the graph, so the search by id stops at this very node
    rw [Neighborhood.node?, find?_eq_some_of_unique]
    · refine ⟨List.mem_filterMap.2 ⟨id, hfound, (node?_eq_some_iff hg id n).2 ⟨hn, hnid⟩⟩, by simpa using hnid⟩
    · intro a ha b hb hid hid'
      obtain ⟨_, _, ha⟩ := List.mem_filterMap.1 ha
      obtain ⟨_, _, hb⟩ := List.mem_filterMap.1 hb
      have heq : a.id = b.id := (of_decide_eq_true hid).trans (of_decide_eq_true hid').symm
      exact hg.node_eq_of_id (List.mem_of_find?_eq_some ha) (List.mem_of_find?_eq_some hb) heq

end

end CodeAtlas.Graph
