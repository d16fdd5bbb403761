import CodeAtlas.Proofs.Projection.Lasting
/-!
# The order at the end of a unit

At its end a unit lets go of edges and deals with nodes one after the other, and neither the edges nor the nodes come in
an order that means anything. What becomes of a node is a `Verdict`, which is read off the edges and the names at their
ends. Dealing with a node leaves these as they are, so the verdict on every node is the one given at first
(`settleAll_eq`), and the verdicts on two nodes may be carried out in either order (`Verdict.carryOut_comm`). Therefore
the end of a unit leaves the same graph, cache and counts in whatever order it goes on (`prune_order`).
-/

namespace CodeAtlas

namespace BuildCache

theorem forget_comm (c : BuildCache) (k k' : NodeKind) (key key' : String) :
    (c.forget k key).forget k' key' = (c.forget k' key').forget k key := by
  simp only [forget, NodeIds.erase, List.filter_filter, Bool.and_comm]

end BuildCache

namespace Graph

/-- An origin lets go of the same edges in whatever order it does. -/
theorem releaseAll_perm {g : Graph} (hg : g.WellFormed) {ids ids' : List Int} (h : ids'.Perm ids) (o : String) :
    g.releaseAll ids' o = g.releaseAll ids o := by
  have hedges : (g.releaseAll ids' o).edges = (g.releaseAll ids o).edges := by
    rw [releaseAll_edges hg, releaseAll_edges hg]
    simp only [h.mem_iff]
  have hnodes : (g.releaseAll ids' o).nodes = (g.releaseAll ids o).nodes := by simp
  have hnextNode : (g.releaseAll ids' o).nextNode = (g.releaseAll ids o).nextNode := by simp
  have hnextEdge : (g.releaseAll ids' o).nextEdge = (g.releaseAll ids o).nextEdge := by simp
  cases hleft : g.releaseAll ids' o with
  | mk nodes edges nextNode nextEdge =>
      cases hright : g.releaseAll ids o with
      | mk nodes' edges' nextNode' nextEdge' =>
          rw [hleft, hright] at hedges hnodes hnextNode hnextEdge
          exact congr (congr (congr (congrArg Graph.mk hnodes) hedges) hnextNode) hnextEdge

/-- The same edges, and the same names at their ends. -/
structure SameEnds (g g' : Graph) : Prop where
  edges : g'.edges = g.edges
  names : ∀ e ∈ g.edges, ∀ i,
    (g'.Names e.source i ↔ g.Names e.source i) ∧ (g'.Names e.target i ↔ g.Names e.target i)

theorem key_node?_eq_some_iff {g : Graph} (hg : g.WellFormed) (id : Int) (key : String) :
    (g.node? id).map (·.key) = some key ↔ ∃ kind, g.Names id (kind, key) := by
  simp only [Option.map_eq_some_iff, node?_eq_some_iff hg]
  constructor
  · rintro ⟨n, ⟨hn, hid⟩, rfl⟩
    exact ⟨n.kind, n, hn, hid, rfl⟩
  · rintro ⟨kind, n, hn, hid, hi⟩
    exact ⟨n, ⟨hn, hid⟩, congrArg Prod.snd hi⟩

end Graph

namespace Projection

/-! ## Verdicts -/

/-- What becomes of a node that was the unit's own before. -/
inductive Verdict where
  | keep
  | move (d : NewNode)
  | demote
  | delete

namespace Verdict

/-- What the verdict on the node with an id makes of a stored node. -/
def onNode (v : Verdict) (id : Int) (n : Node) : Option Node :=
  if n.id = id then
    match v with
    | keep => some n
    | move d => some (d.stored id)
    | demote => some n.demoted
    | delete => none
  else some n

/-- Whether the verdict on the node with an id leaves an edge where it is. -/
def spares (v : Verdict) (id : Int) (e : Edge) : Bool :=
  match v with
  | delete => e.source ≠ id && e.target ≠ id
  | _ => true

/-- How many ids are used up: a node that moves is written anew. -/
def uses : Verdict → Int
  | move _ => 1
  | _ => 0

def onGraph (v : Verdict) (id : Int) (g : Graph) : Graph :=
  { g with
    nodes := g.nodes.filterMap (v.onNode id)
    edges := g.edges.filter (v.spares id)
    nextNode := g.nextNode + v.uses }

/-- Whether the node is forgotten by the cache. -/
def forgets : Verdict → Bool
  | demote => true
  | delete => true
  | _ => false

def onCache (v : Verdict) (node : Node) (c : BuildCache) : BuildCache :=
  if v.forgets then c.forget node.kind node.key else c

def onStats (v : Verdict) (s : ProjectionStats) : ProjectionStats :=
  match v with
  | keep => s
  | move _ => { s with reanchored := s.reanchored + 1 }
  | demote => { s with demoted := s.demoted + 1 }
  | delete => { s with pruned := s.pruned + 1 }

/-- Carries out the verdict on a node. -/
def carryOut (v : Verdict) (node : Node) (w : Work) : Work :=
  { w with graph := v.onGraph node.id w.graph, cache := v.onCache node w.cache, stats := v.onStats w.stats }

variable (v v' : Verdict) {a b : Int}

theorem onNode_of_ne {n : Node} (h : n.id ≠ a) : v.onNode a n = some n := if_neg h

/-- What is left of a node has its id. -/
theorem id_of_onNode {n m : Node} (h : v.onNode a n = some m) : m.id = n.id := by
  unfold onNode at h
  split at h
  · next hid =>
      cases v with
      | keep => rw [Option.some.inj h]
      | move d =>
          rw [← Option.some.inj h, hid]
          rfl
      | demote =>
          rw [← Option.some.inj h]
          rfl
      | delete => exact absurd h (by simp)
  · rw [Option.some.inj h]

theorem onNode_comm (hne : a ≠ b) (n : Node) :
    (v.onNode a n).bind (v'.onNode b) = (v'.onNode b n).bind (v.onNode a) := by
  -- one of the two verdicts is not about the node
  have hside : ∀ (v v' : Verdict) {a b : Int}, n.id ≠ b →
      (v.onNode a n).bind (v'.onNode b) = (v'.onNode b n).bind (v.onNode a) := by
    intro v v' a b hb
    rw [onNode_of_ne v' hb, Option.bind_some]
    cases hleft : v.onNode a n with
    | none => rfl
    | some m => exact onNode_of_ne v' (by rw [id_of_onNode v hleft]; exact hb)
  by_cases hb : n.id = b
  · exact (hside v' v fun ha => hne (ha.symm.trans hb)).symm
  · exact hside v v' hb

theorem onGraph_comm (hne : a ≠ b) (g : Graph) :
    v'.onGraph b (v.onGraph a g) = v.onGraph a (v'.onGraph b g) := by
  have hnodes : (g.nodes.filterMap (v.onNode a)).filterMap (v'.onNode b) =
      (g.nodes.filterMap (v'.onNode b)).filterMap (v.onNode a) := by
    simp only [List.filterMap_filterMap, onNode_comm v v' hne]
  have hedges : (g.edges.filter (v.spares a)).filter (v'.spares b) =
      (g.edges.filter (v'.spares b)).filter (v.spares a) := by
    simp only [List.filter_filter, Bool.and_comm]
  have hnext : g.nextNode + v.uses + v'.uses = g.nextNode + v'.uses + v.uses := Int.add_right_comm _ _ _
  simp only [onGraph, hnodes, hedges, hnext]

theorem onCache_comm (m n : Node) (c : BuildCache) :
    v'.onCache n (v.onCache m c) = v.onCache m (v'.onCache n c) := by
  unfold onCache
  cases v.forgets with
  | false => rfl
  | true =>
      cases v'.forgets with
      | false => rfl
      | true => exact BuildCache.forget_comm c _ _ _ _

theorem onStats_comm (s : ProjectionStats) : v'.onStats (v.onStats s) = v.onStats (v'.onStats s) := by
  cases v <;> cases v' <;> rfl

/-- The verdicts on two nodes may be carried out in either order. -/
theorem carryOut_comm {m n : Node} (hne : m.id ≠ n.id) (w : Work) :
    v'.carryOut n (v.carryOut m w) = v.carryOut m (v'.carryOut n w) := by
  simp only [carryOut, onGraph_comm v v' hne, onCache_comm v v' m n, onStats_comm v v']

end Verdict

/-! ## One node -/

/-- What is to become of a node, as long as nothing is known of it but what the graph tells. -/
def verdict (c : Catalog) (o : String) (touched : List Int) (g : Graph) (node : Node) : Verdict :=
  if touched.contains node.id then .keep
  else
    match definedElsewhere? c g o node with
    | some d => .move d
    | none => if g.isReferenced node.id then .demote else .delete

section

variable {c : Catalog} {o : String} {node : Node} {w w' : Work}

theorem onGraph_keep (g : Graph) (id : Int) : Verdict.keep.onGraph id g = g := by
  have hkeep : Verdict.keep.onNode id = some := by
    funext n
    exact ite_self _
  have hnodes : g.nodes.filterMap (Verdict.keep.onNode id) = g.nodes := by
    rw [hkeep, List.filterMap_some]
  have hedges : g.edges.filter (Verdict.keep.spares id) = g.edges := List.filter_true g.edges
  simp [Verdict.onGraph, hnodes, hedges, Verdict.uses]

/-- A node that moves is written in its own place. -/
theorem onGraph_move {g : Graph} (hg : g.WellFormed) {id : Int} {d : NewNode} (h : g.Names id d.identity) :
    (Verdict.move d).onGraph id g = (g.upsertNode d).1 := by
  have hid := (Graph.nodeId?_eq_some_iff hg d.kind d.key id).2 h
  have hnodes : g.nodes.filterMap ((Verdict.move d).onNode id) =
      g.nodes.map fun old => if old.id = id then d.stored id else old := by
    rw [← List.filterMap_eq_map]
    apply List.filterMap_congr
    intro n _
    simp only [Verdict.onNode, Function.comp]
    split <;> rfl
  have hedges : g.edges.filter ((Verdict.move d).spares id) = g.edges := List.filter_true g.edges
  simp only [Graph.upsertNode, hid, Verdict.onGraph, hnodes, hedges, Verdict.uses]

theorem onGraph_demote (g : Graph) (id : Int) : Verdict.demote.onGraph id g = g.demoteNode id := by
  have hnodes : g.nodes.filterMap (Verdict.demote.onNode id) =
      g.nodes.map fun n => if n.id = id then n.demoted else n := by
    rw [← List.filterMap_eq_map]
    apply List.filterMap_congr
    intro n _
    simp only [Verdict.onNode, Function.comp]
    split <;> rfl
  have hedges : g.edges.filter (Verdict.demote.spares id) = g.edges := List.filter_true g.edges
  simp [Verdict.onGraph, hnodes, hedges, Verdict.uses, Graph.demoteNode]

theorem onGraph_delete (g : Graph) (id : Int) : Verdict.delete.onGraph id g = g.deleteNode id := by
  have hnodes : g.nodes.filterMap (Verdict.delete.onNode id) = g.nodes.filter (·.id ≠ id) := by
    rw [← List.filterMap_eq_filter]
    apply List.filterMap_congr
    intro n _
    by_cases h : n.id = id <;> simp [Verdict.onNode, Option.guard, h]
  simp only [Verdict.onGraph, hnodes, Verdict.uses, Graph.deleteNode, Int.add_zero]
  rfl

/-- Dealing with a node carries out the verdict on it. -/
theorem settle_eq (hg : w.graph.WellFormed) (hnode : w.graph.Names node.id node.identity) (c : Catalog) (o : String) :
    settle c o node w = (verdict c o w.touched w.graph node).carryOut node w := by
  unfold settle verdict
  by_cases htouched : w.touched.contains node.id = true
  · rw [if_pos htouched, if_pos htouched]
    simp only [Verdict.carryOut, onGraph_keep]
    rfl
  · rw [if_neg htouched, if_neg htouched]
    cases hd : definedElsewhere? c w.graph o node with
    | some d =>
        obtain ⟨_, _, _, _, hi, _⟩ := definedElsewhere?_eq_some hg hd
        simp only [Verdict.carryOut, onGraph_move hg (hi ▸ hnode)]
        rfl
    | none =>
        dsimp only
        split
        · simp only [Verdict.carryOut, onGraph_demote]
          rfl
        · simp only [Verdict.carryOut, onGraph_delete]
          rfl

/-! ## What a verdict depends on -/

theorem sameEnds_settle (hg : w.graph.WellFormed) (hnode : w.graph.Names node.id node.identity)
    (h : Settled o node w w') : w.graph.SameEnds w'.graph :=
  ⟨h.edges_eq, fun _ he i => ⟨h.names_iff_of_referenced hg hnode (Graph.isReferenced_source he) i,
    h.names_iff_of_referenced hg hnode (Graph.isReferenced_target he) i⟩⟩

variable {g g' : Graph}

theorem definition?_congr (hg : g.WellFormed) (hg' : g'.WellFormed) (h : g.SameEnds g') (o : String) {e : Edge}
    (he : e ∈ g.edges) : definition? g' o e = definition? g o e := by
  ext ⟨path, line⟩
  rw [definition?_eq_some_iff hg', definition?_eq_some_iff hg, (h.names e he _).1]

theorem superclassFrom?_congr (hg : g.WellFormed) (hg' : g'.WellFormed) (h : g.SameEnds g') (id : Int)
    (path : String) : superclassFrom? g' id path = superclassFrom? g id path := by
  unfold superclassFrom? Graph.edgesFrom
  rw [h.edges, ← List.head?_filterMap, ← List.head?_filterMap]
  apply congrArg List.head?
  apply List.filterMap_congr
  intro e he
  have hkey : (g'.node? e.target).map (·.key) = (g.node? e.target).map (·.key) := by
    ext key
    rw [Graph.key_node?_eq_some_iff hg', Graph.key_node?_eq_some_iff hg]
    exact exists_congr fun kind => (h.names e (List.mem_filter.1 he).1 _).2
  rw [hkey]

theorem definedElsewhere?_congr (hg : g.WellFormed) (hg' : g'.WellFormed) (h : g.SameEnds g') (c : Catalog)
    (o : String) (node : Node) : definedElsewhere? c g' o node = definedElsewhere? c g o node := by
  have hfound : (g'.edgesTo node.id).findSome? (definition? g' o) = (g.edgesTo node.id).findSome? (definition? g o) := by
    unfold Graph.edgesTo
    rw [h.edges, ← List.head?_filterMap, ← List.head?_filterMap]
    exact congrArg List.head? (List.filterMap_congr fun e he =>
      definition?_congr hg hg' h o (List.mem_filter.1 he).1)
  simp only [definedElsewhere?, hfound, redefinition, superclassFrom?_congr hg hg' h]

/-- The verdict on a node is the same wherever the same edges lead to the same names. -/
theorem verdict_congr (hg : g.WellFormed) (hg' : g'.WellFormed) (h : g.SameEnds g') (c : Catalog) (o : String)
    (touched : List Int) (node : Node) : verdict c o touched g' node = verdict c o touched g node := by
  unfold verdict Graph.isReferenced
  rw [definedElsewhere?_congr hg hg' h, h.edges]

/-! ## All nodes -/

/-- Dealing with nodes in turn carries out the verdicts that were given on them at first. -/
theorem settleAll_eq (hg : w.graph.WellFormed) (c : Catalog) (o : String) {previous : List Node}
    (hl : Lists w.graph previous) :
    settleAll c o previous w =
      previous.foldl (fun w' node => (verdict c o w.touched w.graph node).carryOut node w') w := by
  induction previous generalizing w with
  | nil => rfl
  | cons node rest ih =>
      have hnode := hl.names node List.mem_cons_self
      have hs := settled_settle hg c o node
      have hsame := sameEnds_settle hg hnode hs
      rw [settleAll_cons, ih (hs.wellFormed hg) (hs.lists hg hl), hs.touched_eq, List.foldl_cons, ← settle_eq hg hnode]
      simp only [verdict_congr hg (hs.wellFormed hg) hsame]

theorem settleAll_perm (hg : w.graph.WellFormed) (c : Catalog) (o : String) {previous previous' : List Node}
    (hl : Lists w.graph previous) (hp : previous'.Perm previous) :
    settleAll c o previous' w = settleAll c o previous w := by
  have hl' : Lists w.graph previous' :=
    ⟨(hp.map Node.id).nodup_iff.2 hl.nodup, fun n hn => hl.names n (hp.mem_iff.1 hn)⟩
  rw [settleAll_eq hg c o hl', settleAll_eq hg c o hl]
  refine hp.foldl_eq' (fun m hm n hn w' => ?_) w
  by_cases hid : m.id = n.id
  · rw [List.inj_on_of_nodup_map hl'.nodup hm hn hid]
  · exact Verdict.carryOut_comm _ _ hid w'

/-- The end of a unit is the same in whatever order it lets go of edges and deals with nodes. -/
theorem prune_perm (hg : w.graph.WellFormed) (c : Catalog) (o : String) {previous previous' : List Node}
    (hl : Lists w.graph previous) {stale' : List Int} (hs : stale'.Perm w.stale) (hp : previous'.Perm previous) :
    prune c o previous' { w with stale := stale' } = prune c o previous w := by
  have hrelease : releaseStale o { w with stale := stale' } = releaseStale o w := by
    have hgraph := Graph.releaseAll_perm hg hs o
    simp only [Graph.releaseAll] at hgraph
    simp only [releaseStale, hgraph]
  have hreleased : (releaseStale o w).graph.WellFormed := hg.releaseAll w.stale o
  rw [prune_eq, prune_eq, hrelease]
  refine settleAll_perm hreleased c o ⟨hl.nodup, fun n hn => ?_⟩ hp
  exact (Graph.names_releaseAll _ _ _ _ _).2 (hl.names n hn)

end

/-! ## Whole units -/

/-- What a unit writes before its end. -/
def Change.writes : Change → Build Unit
  | .project path category o => writeFile path category o
  | .retract _ => return ()
  | .projectSchema s => writeSchema s
  | .retractSchema => writeSchema {}

theorem run_eq_runUnit (c : Catalog) (s : Session) (change : Change) :
    change.run c s = runUnit c s.graph s.cache change.origin (change.previous s.graph) change.writes := by
  cases change <;> rfl

theorem growing_writes (change : Change) : Growing change.writes := by
  cases change with
  | project path category o => exact growing_writeFile path category o
  | retract path => exact growing_pure ()
  | projectSchema s => exact growing_writeSchema s
  | retractSchema => exact growing_writeSchema {}

/-- Take any graph that units lead to, and a unit on it whose writes come to their end. From there the unit lets go of
its stale edges and deals with the nodes that were its own in any order, and leaves the same: this is what the unit
gives. -/
theorem prune_order {g : Graph} (hg : Reached g) (c : Catalog) (cache : BuildCache) (change : Change) {w : Work}
    (hwrites : change.writes.run.run (start change.origin g cache) = (.ok (), w)) {stale' : List Int}
    {previous' : List Node} (hs : stale'.Perm w.stale) (hp : previous'.Perm (change.previous g)) :
    prune c change.origin previous' { w with stale := stale' } = prune c change.origin (change.previous g) w ∧
      change.run c ⟨g, cache⟩ =
        ⟨(prune c change.origin previous' { w with stale := stale' }).graph,
          (prune c change.origin previous' { w with stale := stale' }).cache,
          .ok (prune c change.origin previous' { w with stale := stale' }).stats⟩ := by
  have hgrows := growing_writes change (start change.origin g cache) hg.wellFormed
  rw [hwrites] at hgrows
  have hsublist := previous_sublist change g
  have hl : Lists w.graph (change.previous g) :=
    ⟨hg.wellFormed.nodeIds.sublist (hsublist.map _),
      fun n hn => hgrows.names _ _ (Graph.names_of_mem (hsublist.subset hn))⟩
  have hprune := prune_perm hgrows.wellFormed c change.origin hl hs hp
  refine ⟨hprune, ?_⟩
  have hstart : ({ graph := g, cache := cache, stale := g.edgesHeldBy change.origin } : Work) =
      start change.origin g cache := rfl
  rw [hprune, run_eq_runUnit]
  simp only [runUnit, hstart, hwrites]

/-- A file with a class that another file declares too, a class that the other file extends, and a method. -/
def parting : Outline :=
  { declarations := [
      { name := "A", kind := .classDecl, startLine := 1, endLine := 2 },
      { name := "C", kind := .classDecl, startLine := 3, endLine := 6 },
      { name := "x", kind := .method, startLine := 4, endLine := 5, enclosing := some "C" }] }

def staying : Outline :=
  { declarations := [
      { name := "A", kind := .classDecl, startLine := 1, endLine := 2 },
      { name := "D", kind := .classDecl, startLine := 3, endLine := 4, superclass := some "C" }] }

/-- The graph of the two files. -/
def sharing : Graph :=
  ((Change.project "a.rb" .model parting).run {}
    ⟨((Change.project "b.rb" .model staying).run {} {}).graph, {}⟩).graph

theorem reached_sharing : Reached sharing := .unit (.unit .empty {} {} _) {} {} _

/-- The work of taking the first file back, with the edges that it lets go of from the last to the first. -/
def backwards : Work := { start "a.rb" sharing {} with stale := (start "a.rb" sharing {}).stale.reverse }

theorem prune_order_sharing :
    ((sharing.anchoredTo "a.rb").map Node.key = ["A", "C", "a.rb", "C#x"] ∧ backwards.stale = [7, 6, 5, 4]) ∧
    (prune {} "a.rb" (sharing.anchoredTo "a.rb").reverse backwards).stats =
      { pruned := 2, demoted := 1, reanchored := 1 } ∧
    prune {} "a.rb" (sharing.anchoredTo "a.rb").reverse backwards =
      prune {} "a.rb" (sharing.anchoredTo "a.rb") (start "a.rb" sharing {}) := by
  have hsame := (prune_order reached_sharing {} {} (.retract "a.rb") rfl
    (start "a.rb" sharing {}).stale.reverse_perm (sharing.anchoredTo "a.rb").reverse_perm).1
  exact ⟨⟨by decide +kernel, by decide +kernel⟩, by decide +kernel, hsame⟩

end Projection

end CodeAtlas
