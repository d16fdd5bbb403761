import CodeAtlas.Graph.Store
import CodeAtlas.Proofs.Table
/-!
# What a graph knows its nodes by

A node is known to users by its kind and key, its `Identity`, and to edges by its id. In a well-formed graph the two are
tied one to one: `g.Names id i` says that the node with the id `id` has the identity `i`. Each operation on nodes is
described by the nodes that are there afterwards and by what it does to `Names`; all of them keep a graph well-formed.
-/

namespace CodeAtlas

/-- The kind and key of a node. -/
abbrev Identity := NodeKind × String

/-- The identity of a stored node. -/
def Node.identity (n : Node) : Identity := (n.kind, n.key)

/-- The identity of a node to be written. -/
def NewNode.identity (n : NewNode) : Identity := (n.kind, n.key)

/-- The kind and ends of an edge, by which it is known. -/
def Edge.identity (e : Edge) : EdgeKind × Int × Int := (e.kind, e.source, e.target)

/-- The kind and ends of an edge to be written. -/
def NewEdge.identity (n : NewEdge) : EdgeKind × Int × Int := (n.kind, n.source, n.target)

@[simp] theorem NewNode.stored_id (n : NewNode) (id : Int) : (n.stored id).id = id := rfl

@[simp] theorem NewNode.stored_identity (n : NewNode) (id : Int) : (n.stored id).identity = n.identity := rfl

@[simp] theorem Node.demoted_id (n : Node) : n.demoted.id = n.id := rfl

@[simp] theorem Node.demoted_identity (n : Node) : n.demoted.identity = n.identity := rfl

namespace Graph

/-- Ids and identities of nodes and edges occur once, ids to be given next are new, and both ends of every edge
exist. -/
structure WellFormed (g : Graph) : Prop where
  nodeIds : (g.nodes.map Node.id).Nodup
  nodeIdentities : (g.nodes.map Node.identity).Nodup
  nodesBelow : ∀ n ∈ g.nodes, n.id < g.nextNode
  edgeIds : (g.edges.map Edge.id).Nodup
  edgeIdentities : (g.edges.map Edge.identity).Nodup
  edgesBelow : ∀ e ∈ g.edges, e.id < g.nextEdge
  ends : ∀ e ∈ g.edges, (∃ n ∈ g.nodes, n.id = e.source) ∧ ∃ n ∈ g.nodes, n.id = e.target

/-- The node with the id `id` has the identity `i`. -/
def Names (g : Graph) (id : Int) (i : Identity) : Prop := ∃ n ∈ g.nodes, n.id = id ∧ n.identity = i

/-- A node with the identity `i` is there. -/
def Has (g : Graph) (i : Identity) : Prop := ∃ id, g.Names id i

theorem wellFormed_empty : ({} : Graph).WellFormed := by
  constructor <;> simp

theorem WellFormed.keyedNodes {g : Graph} (hg : g.WellFormed) : Keyed Node.id Node.identity g.nextNode g.nodes :=
  ⟨hg.nodeIds, hg.nodeIdentities, hg.nodesBelow⟩

theorem WellFormed.keyedEdges {g : Graph} (hg : g.WellFormed) : Keyed Edge.id Edge.identity g.nextEdge g.edges :=
  ⟨hg.edgeIds, hg.edgeIdentities, hg.edgesBelow⟩

theorem WellFormed.node_eq_of_id {g : Graph} (hg : g.WellFormed) {m n : Node} (hm : m ∈ g.nodes)
    (hn : n ∈ g.nodes) (h : m.id = n.id) : m = n :=
  hg.keyedNodes.eq_of_id hm hn h

theorem WellFormed.node_eq_of_identity {g : Graph} (hg : g.WellFormed) {m n : Node} (hm : m ∈ g.nodes)
    (hn : n ∈ g.nodes) (h : m.identity = n.identity) : m = n :=
  hg.keyedNodes.eq_of_key hm hn h

theorem WellFormed.edge_eq_of_id {g : Graph} (hg : g.WellFormed) {e f : Edge} (he : e ∈ g.edges)
    (hf : f ∈ g.edges) (h : e.id = f.id) : e = f :=
  hg.keyedEdges.eq_of_id he hf h

theorem WellFormed.edge_eq_of_identity {g : Graph} (hg : g.WellFormed) {e f : Edge} (he : e ∈ g.edges)
    (hf : f ∈ g.edges) (h : e.identity = f.identity) : e = f :=
  hg.keyedEdges.eq_of_key he hf h

theorem names_of_mem {g : Graph} {n : Node} (hn : n ∈ g.nodes) : g.Names n.id n.identity :=
  ⟨n, hn, rfl, rfl⟩

theorem Names.id_eq {g : Graph} (hg : g.WellFormed) {a b : Int} {i : Identity} (ha : g.Names a i)
    (hb : g.Names b i) : a = b := by
  obtain ⟨m, hm, rfl, hmi⟩ := ha
  obtain ⟨n, hn, rfl, hni⟩ := hb
  rw [hg.node_eq_of_identity hm hn (hmi.trans hni.symm)]

theorem Names.identity_eq {g : Graph} (hg : g.WellFormed) {a : Int} {i j : Identity} (hi : g.Names a i)
    (hj : g.Names a j) : i = j := by
  obtain ⟨m, hm, hma, rfl⟩ := hi
  obtain ⟨n, hn, hna, rfl⟩ := hj
  rw [hg.node_eq_of_id hm hn (hma.trans hna.symm)]

/-! ## Look-ups -/

theorem find?_eq_some_iff {g : Graph} (hg : g.WellFormed) (k : NodeKind) (key : String) (n : Node) :
    g.find? k key = some n ↔ n ∈ g.nodes ∧ n.identity = (k, key) := by
  have huniq : ∀ a ∈ g.nodes, ∀ b ∈ g.nodes, (decide (a.kind = k) && decide (a.key = key)) = true →
      (decide (b.kind = k) && decide (b.key = key)) = true → a = b := by
    intro a ha b hb hpa hpb
    simp only [Bool.and_eq_true, decide_eq_true_eq] at hpa hpb
    apply hg.node_eq_of_identity ha hb
    simp [Node.identity, hpa, hpb]
  rw [Graph.find?, find?_eq_some_of_unique huniq]
  simp [Node.identity]

theorem nodeId?_eq_some_iff {g : Graph} (hg : g.WellFormed) (k : NodeKind) (key : String) (id : Int) :
    g.nodeId? k key = some id ↔ g.Names id (k, key) := by
  simp only [nodeId?, Option.map_eq_some_iff, find?_eq_some_iff hg, Names]
  constructor
  · rintro ⟨n, ⟨hn, hi⟩, rfl⟩
    exact ⟨n, hn, rfl, hi⟩
  · rintro ⟨n, hn, rfl, hi⟩
    exact ⟨n, ⟨hn, hi⟩, rfl⟩

theorem nodeId?_eq_none_iff {g : Graph} (hg : g.WellFormed) (k : NodeKind) (key : String) :
    g.nodeId? k key = none ↔ ¬ g.Has (k, key) := by
  rw [Option.eq_none_iff_forall_ne_some]
  simp only [ne_eq, nodeId?_eq_some_iff hg, Has, not_exists]

theorem nodeId?_isSome_iff {g : Graph} (hg : g.WellFormed) (k : NodeKind) (key : String) :
    (g.nodeId? k key).isSome = true ↔ g.Has (k, key) := by
  rw [Option.isSome_iff_exists]
  simp only [nodeId?_eq_some_iff hg, Has]

theorem node?_eq_some_iff {g : Graph} (hg : g.WellFormed) (id : Int) (n : Node) :
    g.node? id = some n ↔ n ∈ g.nodes ∧ n.id = id := by
  have huniq : ∀ a ∈ g.nodes, ∀ b ∈ g.nodes, decide (a.id = id) = true → decide (b.id = id) = true → a = b := by
    intro a ha b hb hpa hpb
    simp only [decide_eq_true_eq] at hpa hpb
    exact hg.node_eq_of_id ha hb (hpa.trans hpb.symm)
  rw [Graph.node?, find?_eq_some_of_unique huniq]
  simp

theorem Names.node?_isSome {g : Graph} {id : Int} {i : Identity} (h : g.Names id i) :
    (g.node? id).isNone = false := by
  obtain ⟨n, hn, hid, _⟩ := h
  simp only [Graph.node?, Option.isNone_eq_false_iff, List.find?_isSome]
  exact ⟨n, hn, by simpa using hid⟩

/-! ## Writing a node -/

@[simp] theorem upsertNode_edges (g : Graph) (n : NewNode) : (g.upsertNode n).1.edges = g.edges := by
  unfold upsertNode
  split <;> rfl

@[simp] theorem upsertNode_nextEdge (g : Graph) (n : NewNode) : (g.upsertNode n).1.nextEdge = g.nextEdge := by
  unfold upsertNode
  split <;> rfl

@[simp] theorem upsertNode_nextNode (g : Graph) (n : NewNode) :
    (g.upsertNode n).1.nextNode = g.nextNode + 1 := by
  unfold upsertNode
  split <;> rfl

/-- Writing a known node gives its id. -/
theorem upsertNode_snd_of_names {g : Graph} (hg : g.WellFormed) {n : NewNode} {id : Int}
    (h : g.Names id n.identity) : (g.upsertNode n).2 = id := by
  have hid := (nodeId?_eq_some_iff hg n.kind n.key id).2 h
  simp [upsertNode, hid]

/-- Writing a new node gives an id that no node had. -/
theorem upsertNode_snd_of_not_has {g : Graph} (hg : g.WellFormed) {n : NewNode} (h : ¬ g.Has n.identity) :
    (g.upsertNode n).2 = g.nextNode := by
  have hid := (nodeId?_eq_none_iff hg n.kind n.key).2 h
  simp [upsertNode, hid]

/-- After a write the node written stands in place of the one with its identity, and all others are as before. -/
theorem mem_upsertNode {g : Graph} (hg : g.WellFormed) (n : NewNode) (m : Node) :
    m ∈ (g.upsertNode n).1.nodes ↔
      m = n.stored (g.upsertNode n).2 ∨ (m ∈ g.nodes ∧ m.identity ≠ n.identity) := by
  by_cases hhas : g.Has n.identity
  · obtain ⟨id, hid⟩ := hhas
    have hlook := (nodeId?_eq_some_iff hg n.kind n.key id).2 hid
    obtain ⟨old, hold, rfl, holdIdentity⟩ := hid
    simp only [upsertNode, hlook]
    rw [← holdIdentity]
    exact hg.keyedNodes.mem_replace hold (fun _ => n.stored old.id) m
  · have hlook := (nodeId?_eq_none_iff hg n.kind n.key).2 hhas
    simp only [upsertNode, hlook]
    exact Keyed.mem_add (fun a ha hi => hhas ⟨a.id, a, ha, rfl, hi⟩) m

/-- A write names the node written, and changes no other name. -/
theorem names_upsertNode {g : Graph} (hg : g.WellFormed) (n : NewNode) (id : Int) (i : Identity) :
    (g.upsertNode n).1.Names id i ↔ g.Names id i ∨ (id = (g.upsertNode n).2 ∧ i = n.identity) := by
  constructor
  · rintro ⟨m, hm, rfl, rfl⟩
    rcases (mem_upsertNode hg n m).1 hm with rfl | ⟨hm, _⟩
    · exact Or.inr ⟨rfl, rfl⟩
    · exact Or.inl (names_of_mem hm)
  · rintro (h | ⟨rfl, rfl⟩)
    · by_cases hi : i = n.identity
      · rw [hi] at h ⊢
        rw [← upsertNode_snd_of_names hg h]
        exact ⟨_, (mem_upsertNode hg n _).2 (Or.inl rfl), rfl, rfl⟩
      · obtain ⟨m, hm, hid, hmi⟩ := h
        exact ⟨m, (mem_upsertNode hg n m).2 (Or.inr ⟨hm, by rw [hmi]; exact hi⟩), hid, hmi⟩
    · exact ⟨_, (mem_upsertNode hg n _).2 (Or.inl rfl), rfl, rfl⟩

theorem names_upsertNode_self {g : Graph} (hg : g.WellFormed) (n : NewNode) :
    (g.upsertNode n).1.Names (g.upsertNode n).2 n.identity :=
  (names_upsertNode hg n _ _).2 (Or.inr ⟨rfl, rfl⟩)

theorem Names.upsertNode {g : Graph} (hg : g.WellFormed) {id : Int} {i : Identity} (h : g.Names id i)
    (n : NewNode) : (g.upsertNode n).1.Names id i :=
  (names_upsertNode hg n id i).2 (Or.inl h)

/-- Both lists of names of a well-formed graph keep each name once when a node is written. -/
theorem keyed_upsertNode {g : Graph} (hg : g.WellFormed) (n : NewNode) :
    Keyed Node.id Node.identity (g.upsertNode n).1.nextNode (g.upsertNode n).1.nodes := by
  rw [upsertNode_nextNode]
  by_cases hhas : g.Has n.identity
  · obtain ⟨id, hid⟩ := hhas
    have hlook := (nodeId?_eq_some_iff hg n.kind n.key id).2 hid
    obtain ⟨old, hold, rfl, holdIdentity⟩ := hid
    simp only [upsertNode, hlook]
    exact hg.keyedNodes.replace hold rfl holdIdentity.symm
  · have hlook := (nodeId?_eq_none_iff hg n.kind n.key).2 hhas
    simp only [upsertNode, hlook]
    exact hg.keyedNodes.add rfl fun a ha hi => hhas ⟨a.id, a, ha, rfl, hi⟩

theorem WellFormed.upsertNode {g : Graph} (hg : g.WellFormed) (n : NewNode) :
    (g.upsertNode n).1.WellFormed := by
  have hnodes := keyed_upsertNode hg n
  refine ⟨hnodes.ids, hnodes.keys, hnodes.below, by simpa using hg.edgeIds, by simpa using hg.edgeIdentities,
    by simpa using hg.edgesBelow, ?_⟩
  intro e he
  rw [upsertNode_edges] at he
  obtain ⟨⟨s, hs, hsid⟩, ⟨t, ht, htid⟩⟩ := hg.ends e he
  obtain ⟨s', hs', hsid', _⟩ := (names_of_mem hs).upsertNode hg n
  obtain ⟨t', ht', htid', _⟩ := (names_of_mem ht).upsertNode hg n
  exact ⟨⟨s', hs', hsid'.trans hsid⟩, ⟨t', ht', htid'.trans htid⟩⟩

/-! ## Referring to a node -/

/-- Referring to a known node changes nothing. -/
theorem ensureNode_of_names {g : Graph} (hg : g.WellFormed) {i : Identity} {id : Int} (h : g.Names id i) :
    g.ensureNode i.1 i.2 = (g, id) := by
  have hid := (nodeId?_eq_some_iff hg i.1 i.2 id).2 h
  simp [ensureNode, hid]

/-- Referring to an unknown node writes a placeholder. -/
theorem ensureNode_of_not_has {g : Graph} (hg : g.WellFormed) {i : Identity} (h : ¬ g.Has i) :
    g.ensureNode i.1 i.2 = g.upsertNode (placeholder i.1 i.2) := by
  have hid := (nodeId?_eq_none_iff hg i.1 i.2).2 h
  simp [ensureNode, hid]

@[simp] theorem ensureNode_edges (g : Graph) (k : NodeKind) (key : String) :
    (g.ensureNode k key).1.edges = g.edges := by
  unfold ensureNode
  split
  · rfl
  · rw [upsertNode_edges]

theorem WellFormed.ensureNode {g : Graph} (hg : g.WellFormed) (k : NodeKind) (key : String) :
    (g.ensureNode k key).1.WellFormed := by
  unfold Graph.ensureNode
  split
  · exact hg
  · exact hg.upsertNode _

/-- The nodes after a reference: those from before, and the placeholder if there was none of the identity. -/
theorem mem_ensureNode {g : Graph} (hg : g.WellFormed) (i : Identity) (m : Node) :
    m ∈ (g.ensureNode i.1 i.2).1.nodes ↔
      m ∈ g.nodes ∨ (¬ g.Has i ∧ m = (placeholder i.1 i.2).stored (g.ensureNode i.1 i.2).2) := by
  by_cases hhas : g.Has i
  · obtain ⟨id, hid⟩ := hhas
    rw [ensureNode_of_names hg hid]
    simp [show g.Has i from ⟨id, hid⟩]
  · rw [ensureNode_of_not_has hg hhas, mem_upsertNode hg]
    constructor
    · rintro (h | ⟨hm, _⟩)
      · exact Or.inr ⟨hhas, h⟩
      · exact Or.inl hm
    · rintro (hm | ⟨_, h⟩)
      · exact Or.inr ⟨hm, fun hi => hhas ⟨m.id, m, hm, rfl, hi⟩⟩
      · exact Or.inl h

theorem names_ensureNode_self {g : Graph} (hg : g.WellFormed) (i : Identity) :
    (g.ensureNode i.1 i.2).1.Names (g.ensureNode i.1 i.2).2 i := by
  by_cases hhas : g.Has i
  · obtain ⟨id, hid⟩ := hhas
    rw [ensureNode_of_names hg hid]
    exact hid
  · rw [ensureNode_of_not_has hg hhas]
    exact names_upsertNode_self hg _

theorem names_ensureNode {g : Graph} (hg : g.WellFormed) (i : Identity) (id : Int) (j : Identity) :
    (g.ensureNode i.1 i.2).1.Names id j ↔ g.Names id j ∨ (id = (g.ensureNode i.1 i.2).2 ∧ j = i) := by
  by_cases hhas : g.Has i
  · obtain ⟨a, ha⟩ := hhas
    rw [ensureNode_of_names hg ha]
    constructor
    · exact Or.inl
    · rintro (h | ⟨rfl, rfl⟩)
      · exact h
      · exact ha
  · rw [ensureNode_of_not_has hg hhas]
    exact names_upsertNode hg _ id j

theorem Names.ensureNode {g : Graph} (hg : g.WellFormed) {id : Int} {j : Identity} (h : g.Names id j)
    (i : Identity) : (g.ensureNode i.1 i.2).1.Names id j :=
  (names_ensureNode hg i id j).2 (Or.inl h)

/-! ## Demoting and deleting a node -/

@[simp] theorem demoteNode_edges (g : Graph) (id : Int) : (g.demoteNode id).edges = g.edges := rfl

theorem mem_demoteNode (g : Graph) (id : Int) (m : Node) :
    m ∈ (g.demoteNode id).nodes ↔
      (m ∈ g.nodes ∧ m.id ≠ id) ∨ ∃ n ∈ g.nodes, n.id = id ∧ m = n.demoted := by
  simp only [demoteNode, List.mem_map]
  constructor
  · rintro ⟨n, hn, rfl⟩
    by_cases h : n.id = id
    · rw [if_pos h]
      exact Or.inr ⟨n, hn, h, rfl⟩
    · rw [if_neg h]
      exact Or.inl ⟨hn, h⟩
  · rintro (⟨hm, h⟩ | ⟨n, hn, h, rfl⟩)
    · exact ⟨m, hm, if_neg h⟩
    · exact ⟨n, hn, if_pos h⟩

/-- A demotion leaves every name as it is. -/
theorem names_demoteNode (g : Graph) (a id : Int) (i : Identity) :
    (g.demoteNode a).Names id i ↔ g.Names id i := by
  constructor
  · rintro ⟨m, hm, rfl, rfl⟩
    rcases (mem_demoteNode g a m).1 hm with ⟨hm, _⟩ | ⟨n, hn, _, rfl⟩
    · exact names_of_mem hm
    · exact ⟨n, hn, rfl, rfl⟩
  · rintro ⟨n, hn, rfl, rfl⟩
    by_cases h : n.id = a
    · exact ⟨n.demoted, (mem_demoteNode g a _).2 (Or.inr ⟨n, hn, h, rfl⟩), rfl, rfl⟩
    · exact ⟨n, (mem_demoteNode g a n).2 (Or.inl ⟨hn, h⟩), rfl, rfl⟩

theorem WellFormed.demoteNode {g : Graph} (hg : g.WellFormed) (id : Int) : (g.demoteNode id).WellFormed := by
  have hids : (g.demoteNode id).nodes.map Node.id = g.nodes.map Node.id := by
    simp only [Graph.demoteNode, List.map_map]
    apply List.map_congr_left
    intro a _
    by_cases h : a.id = id <;> simp [h]
  have hidentities : (g.demoteNode id).nodes.map Node.identity = g.nodes.map Node.identity := by
    simp only [Graph.demoteNode, List.map_map]
    apply List.map_congr_left
    intro a _
    by_cases h : a.id = id <;> simp [h]
  have hkept : ∀ a : Int, (∃ n ∈ g.nodes, n.id = a) → ∃ n ∈ (g.demoteNode id).nodes, n.id = a := by
    rintro a ⟨n, hn, rfl⟩
    obtain ⟨m, hm, hmid, _⟩ := (names_demoteNode g id n.id n.identity).2 (names_of_mem hn)
    exact ⟨m, hm, hmid⟩
  refine ⟨by rw [hids]; exact hg.nodeIds, by rw [hidentities]; exact hg.nodeIdentities, ?_, hg.edgeIds,
    hg.edgeIdentities, hg.edgesBelow, ?_⟩
  · intro m hm
    rcases (mem_demoteNode g id m).1 hm with ⟨hm, _⟩ | ⟨n, hn, _, rfl⟩
    · exact hg.nodesBelow m hm
    · exact hg.nodesBelow n hn
  · intro e he
    exact ⟨hkept _ (hg.ends e he).1, hkept _ (hg.ends e he).2⟩

theorem mem_deleteNode (g : Graph) (id : Int) (m : Node) :
    m ∈ (g.deleteNode id).nodes ↔ m ∈ g.nodes ∧ m.id ≠ id := by
  simp [deleteNode]

theorem names_deleteNode (g : Graph) (a id : Int) (i : Identity) :
    (g.deleteNode a).Names id i ↔ g.Names id i ∧ id ≠ a := by
  simp only [Names, mem_deleteNode]
  constructor
  · rintro ⟨n, ⟨hn, hne⟩, rfl, hi⟩
    exact ⟨⟨n, hn, rfl, hi⟩, hne⟩
  · rintro ⟨⟨n, hn, rfl, hi⟩, hne⟩
    exact ⟨n, ⟨hn, hne⟩, rfl, hi⟩

theorem isReferenced_iff (g : Graph) (id : Int) :
    g.isReferenced id = true ↔ ∃ e ∈ g.edges, e.source = id ∨ e.target = id := by
  simp [isReferenced]

theorem isReferenced_source {g : Graph} {e : Edge} (he : e ∈ g.edges) : g.isReferenced e.source = true :=
  (isReferenced_iff g _).2 ⟨e, he, Or.inl rfl⟩

theorem isReferenced_target {g : Graph} {e : Edge} (he : e ∈ g.edges) : g.isReferenced e.target = true :=
  (isReferenced_iff g _).2 ⟨e, he, Or.inr rfl⟩

/-- A node that no edge touches takes no edge along. -/
theorem deleteNode_edges_of_not_referenced {g : Graph} {id : Int} (h : g.isReferenced id = false) :
    (g.deleteNode id).edges = g.edges := by
  simp only [deleteNode, List.filter_eq_self]
  intro e he
  simp only [isReferenced, List.any_eq_false] at h
  simpa using h e he

theorem WellFormed.deleteNode {g : Graph} (hg : g.WellFormed) (id : Int) : (g.deleteNode id).WellFormed := by
  have hkept : ∀ a : Int, a ≠ id → (∃ n ∈ g.nodes, n.id = a) → ∃ n ∈ (g.deleteNode id).nodes, n.id = a := by
    rintro a hne ⟨n, hn, rfl⟩
    exact ⟨n, (mem_deleteNode g id n).2 ⟨hn, hne⟩, rfl⟩
  refine ⟨hg.nodeIds.sublist (List.filter_sublist.map _), hg.nodeIdentities.sublist (List.filter_sublist.map _), ?_,
    hg.edgeIds.sublist (List.filter_sublist.map _), hg.edgeIdentities.sublist (List.filter_sublist.map _), ?_, ?_⟩
  · intro n hn
    exact hg.nodesBelow n ((mem_deleteNode g id n).1 hn).1
  · intro e he
    exact hg.edgesBelow e (List.mem_filter.1 he).1
  · intro e he
    obtain ⟨he, hne⟩ := List.mem_filter.1 he
    simp only [ne_eq, decide_not, Bool.and_eq_true, Bool.not_eq_eq_eq_not, Bool.not_true,
      decide_eq_false_iff_not] at hne
    exact ⟨hkept _ hne.1 (hg.ends e he).1, hkept _ hne.2 (hg.ends e he).2⟩

end Graph

end CodeAtlas
