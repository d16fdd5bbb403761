import CodeAtlas.Proofs.Projection.LastWord
import CodeAtlas.Proofs.Projection.Provenance
/-!
# Saying the same again

A unit that says what the last unit of its origin said finds everything in place: each node as it was declared last,
each edge as it was stated last, and none of its own nodes or edges to be cleared away. So projecting a file again
that has not changed leaves all nodes and edges as they are (`projectFile_again`).
-/

namespace CodeAtlas

/-- Two lists with the same keys, none of them twice, are equal if one has all elements of the other. -/
theorem eq_of_map_eq {α β : Type*} {key : α → β} {l l' : List α} (hkeys : l.map key = l'.map key)
    (hnodup : (l'.map key).Nodup) (hsub : ∀ a ∈ l, a ∈ l') : l = l' := by
  induction l generalizing l' with
  | nil =>
      rw [List.map_nil, eq_comm, List.map_eq_nil_iff] at hkeys
      exact hkeys.symm
  | cons a rest ih =>
      cases l' with
      | nil => exact absurd hkeys (by simp)
      | cons b rest' =>
          rw [List.map_cons, List.map_cons, List.cons.injEq] at hkeys
          rw [List.map_cons, List.nodup_cons] at hnodup
          have hab : a = b := by
            rcases List.mem_cons.1 (hsub a List.mem_cons_self) with h | h
            · exact h
            · exact absurd (hkeys.1 ▸ List.mem_map_of_mem h) hnodup.1
          rw [hab, ih hkeys.2 hnodup.2]
          intro x hx
          rcases List.mem_cons.1 (hsub x (List.mem_cons_of_mem a hx)) with h | h
          · have hmem : key x ∈ rest'.map key := hkeys.2 ▸ List.mem_map_of_mem hx
            exact absurd (h ▸ hmem) hnodup.1
          · exact h

namespace Graph

variable {g : Graph}

/-- Writing a node that is there gives no new id. -/
theorem map_id_upsertNode (hg : g.WellFormed) {n : NewNode} (h : g.Has n.identity) :
    (g.upsertNode n).1.nodes.map Node.id = g.nodes.map Node.id := by
  obtain ⟨id, hid⟩ := h
  have hlook := (nodeId?_eq_some_iff hg n.kind n.key id).2 hid
  simp only [upsertNode, hlook, List.map_map]
  apply List.map_congr_left
  intro m _
  by_cases hm : m.id = id <;> simp [hm]

/-- Writing an edge that is there gives no new id. -/
theorem map_id_putEdge (hg : g.WellFormed) {n : NewEdge} {e : Edge} (he : e ∈ g.edges) (hi : e.identity = n.identity) :
    (g.putEdge n).1.edges.map Edge.id = g.edges.map Edge.id := by
  simp only [putEdge, (findEdge?_eq_some_iff hg n e).2 ⟨he, hi⟩, List.map_map]
  apply List.map_congr_left
  intro f _
  by_cases hf : f.id = e.id <;> simp [hf, NewEdge.stored]

/-- Both ends of an edge are there. -/
theorem withEnds_of_joins (hg : g.WellFormed) {e : Edge} {l : Link} (hjoin : g.Joins e l) : g.withEnds l = g := by
  simp only [withEnds, ensureNode_of_names hg hjoin.2.1, ensureNode_of_names hg hjoin.2.2]

theorem map_id_relate (hg : g.WellFormed) {e : Edge} {l : Link} (he : e ∈ g.edges) (hjoin : g.Joins e l) (o : String)
    (locations : List String) (metadata : Json) :
    (g.relate o l locations metadata).1.nodes.map Node.id = g.nodes.map Node.id ∧
      (g.relate o l locations metadata).1.edges.map Edge.id = g.edges.map Edge.id := by
  have hends := withEnds_of_joins hg hjoin
  refine ⟨by rw [relate_nodes, hends], ?_⟩
  have hs := names_sourceId (l := l) hg
  have ht := names_targetId (l := l) hg
  rw [hends] at hs ht
  rw [relate_eq, hends]
  refine map_id_putEdge hg he ?_
  simp only [Edge.identity, NewEdge.identity, Prod.mk.injEq]
  exact ⟨hjoin.1, hjoin.2.1.id_eq hg hs, hjoin.2.2.id_eq hg ht⟩

end Graph

namespace Projection

/-! ## Statements about what is there -/

/-- The nodes that statements declare and the edges of the links that they relate are there. -/
structure Present (g : Graph) (statements : List Statement) : Prop where
  nodes : ∀ i, Declares statements i → g.Has i
  edges : ∀ l, Relates statements l → ∃ e ∈ g.edges, g.Joins e l

variable {o : String} {w : Work} {statements : List Statement}

theorem Present.of_cons {g : Graph} {s : Statement} (h : Present g (s :: statements)) : Present g statements :=
  ⟨fun i hi => h.nodes i (declares_cons.2 (Or.inr hi)), fun l hl => h.edges l (relates_cons.2 (Or.inr hl))⟩

theorem Present.apply (hw : w.Sound) (h : Present w.graph statements) (s : Statement) :
    Present (s.apply o w).graph statements := by
  refine ⟨fun i hi => (has_apply hw s i).2 (Or.inl (h.nodes i hi)), ?_⟩
  intro l hl
  obtain ⟨e, he, hjoin⟩ := h.edges l hl
  obtain ⟨e', he', _, hjoin'⟩ := exists_mem_apply (o := o) hw s he hjoin
  exact ⟨e', he', hjoin'⟩

/-- Statements about what is there give no ids. -/
theorem map_id_applyAll (hw : w.Sound) (h : Present w.graph statements) :
    (applyAll o w statements).graph.nodes.map Node.id = w.graph.nodes.map Node.id ∧
      (applyAll o w statements).graph.edges.map Edge.id = w.graph.edges.map Edge.id := by
  induction statements generalizing w with
  | nil => exact ⟨rfl, rfl⟩
  | cons s rest ih =>
      have hrest := ih (sound_apply (o := o) hw s) (h.of_cons.apply hw s)
      have hfirst : (s.apply o w).graph.nodes.map Node.id = w.graph.nodes.map Node.id ∧
          (s.apply o w).graph.edges.map Edge.id = w.graph.edges.map Edge.id := by
        cases s with
        | declare n =>
            have hhas := h.nodes n.identity (declares_cons.2 (Or.inl ⟨n, rfl, rfl⟩))
            rw [apply_declare_graph, Graph.upsertNode_edges]
            exact ⟨Graph.map_id_upsertNode hw.graph hhas, rfl⟩
        | relate l locations metadata =>
            obtain ⟨e, he, hjoin⟩ := h.edges l (relates_cons.2 (Or.inl ⟨_, _, rfl⟩))
            exact Graph.map_id_relate hw.graph he hjoin o locations metadata
      exact ⟨hrest.1.trans hfirst.1, hrest.2.trans hfirst.2⟩

/-- A graph is as statements say: all that they speak of is there, in their last words. -/
structure Agrees (o : String) (g : Graph) (statements : List Statement) : Prop extends Present g statements where
  stored : ∀ m ∈ g.nodes, ∀ n, lastDeclared? statements m.identity = some n → m = n.stored m.id
  worded : ∀ e ∈ g.edges, ∀ l, g.Joins e l → ∀ locations metadata,
    lastRelated? statements l = some (locations, metadata) → e.Worded o locations metadata

/-- Saying again what a graph agrees with changes no node. -/
theorem nodes_applyAll_of_agrees (hw : w.Sound) (h : Agrees o w.graph statements) :
    (applyAll o w statements).graph.nodes = w.graph.nodes := by
  refine eq_of_map_eq (map_id_applyAll hw h.toPresent).1 hw.graph.nodeIds ?_
  intro m hm
  rcases mem_nodes_applyAll hw statements hm with ⟨k, hk, hmk⟩ | ⟨hm, _⟩ | ⟨hnew, _, _, l, hl, hend⟩
  · have hki : k.identity = m.identity := by rw [hmk, NewNode.stored_identity]
    obtain ⟨n, hn⟩ := exists_lastDeclared ⟨k, hk, hki⟩
    obtain ⟨id, m₀, hm₀, rfl, hi₀⟩ := h.nodes m.identity ⟨k, hk, hki⟩
    have hid : m.id = m₀.id := by
      have hname := names_applyAll (o := o) hw (Graph.names_of_mem hm₀) statements
      rw [hi₀] at hname
      exact (Graph.names_of_mem hm).id_eq (sound_applyAll hw statements).graph hname
    have hm' := stored_of_lastDeclared hw hn hm rfl
    have hm₀' := h.stored m₀ hm₀ n (hi₀ ▸ hn)
    rw [hm', hid, ← hm₀']
    exact hm₀
  · exact hm
  · obtain ⟨e, _, hjoin⟩ := h.edges l hl
    refine absurd ?_ hnew
    rcases hend with hend | hend <;> rw [hend]
    · exact ⟨_, hjoin.2.1⟩
    · exact ⟨_, hjoin.2.2⟩

/-- Saying again what a graph agrees with changes no edge. -/
theorem edges_applyAll_of_agrees (hw : w.Sound) (h : Agrees o w.graph statements) :
    (applyAll o w statements).graph.edges = w.graph.edges := by
  have hsound := sound_applyAll (o := o) hw statements
  refine eq_of_map_eq (map_id_applyAll hw h.toPresent).2 hw.graph.edgeIds ?_
  intro e he
  obtain ⟨l, hjoin⟩ := hsound.graph.exists_joins he
  rcases mem_edges_applyAll hw statements he hjoin with ⟨metadata, hs⟩ | ⟨he, _⟩
  · have hl : Relates statements l := ⟨_, metadata, hs⟩
    obtain ⟨locations, metadata, hlast⟩ := exists_lastRelated hl
    obtain ⟨e₀, he₀, hjoin₀⟩ := h.edges l hl
    obtain ⟨e₁, he₁, hid₁, hjoin₁⟩ := exists_mem_applyAll (o := o) hw statements he₀ hjoin₀
    have hsame := hjoin₁.edge_eq hsound.graph he₁ he hjoin
    have hid : e.id = e₀.id := by rw [← hsame, hid₁]
    have hkept := (joins_applyAll hw statements he₀ l (o := o)).2 hjoin₀
    have hi : e.identity = e₀.identity := by
      simp only [Edge.identity, hjoin.1, hkept.1, hjoin.2.1.id_eq hsound.graph hkept.2.1,
        hjoin.2.2.id_eq hsound.graph hkept.2.2]
    have hworded := worded_of_lastRelated hw hlast he hjoin
    have hworded₀ := h.worded e₀ he₀ l hjoin₀ locations metadata hlast
    have hholders := holders_applyAll hw statements he₀ hworded₀.held he hi
    have heq : e = e₀ := by
      simp only [Edge.identity, Prod.mk.injEq] at hi
      rw [Edge.mk.injEq]
      exact ⟨hid, hi.1, hi.2.1, hi.2.2, hworded.locations.trans hworded₀.locations.symm,
        hworded.metadata.trans hworded₀.metadata.symm, hworded.origin.trans hworded₀.origin.symm, hholders⟩
    rw [heq]
    exact he₀
  · exact he

/-! ## Units -/

section

variable {c c' : Catalog} {g : Graph} {cache : BuildCache} {previous : List Node}

/-- A unit leaves a graph that agrees with what it said. -/
theorem agrees_unit (hw : (start o g cache).Sound) (hp : previous.Sublist g.nodes) (c : Catalog)
    (statements : List Statement) : Agrees o (unit c o g cache previous statements).graph statements where
  nodes i hi := has_unit_of_declares hw hp c hi
  edges l hl := by
    obtain ⟨e, he, hjoin, _⟩ := (holds_unit hw hp c statements l o).2 (Or.inr ⟨rfl, hl⟩)
    exact ⟨e, he, hjoin⟩
  stored m hm n hn := stored_unit hw hp hn hm rfl
  worded e he l hjoin locations metadata hlast := worded_unit hw hp hlast he hjoin

/-- The origin holds what the statements relate, and nothing else. -/
def HoldsJust (g : Graph) (o : String) (statements : List Statement) : Prop :=
  ∀ l, g.Holds l o ↔ Relates statements l

theorem stale_subset_applyAll (w : Work) (statements : List Statement) {id : Int}
    (h : id ∈ (applyAll o w statements).stale) : id ∈ w.stale := by
  induction statements generalizing w with
  | nil => exact h
  | cons s rest ih =>
      have hrest := ih (s.apply o w) h
      cases s with
      | declare n => exact hrest
      | relate l locations metadata => exact (List.mem_filter.1 hrest).1

/-- All that the origin held is said again. -/
theorem stale_eq_nil (hw : (start o g cache).Sound) (h : HoldsJust g o statements) :
    (applyAll o (start o g cache) statements).stale = [] := by
  rw [List.eq_nil_iff_forall_not_mem]
  intro id hid
  have hheld : id ∈ g.edgesHeldBy o := stale_subset_applyAll _ statements hid
  obtain ⟨e, he, rfl⟩ := List.mem_map.1 hheld
  obtain ⟨he, ho⟩ := List.mem_filter.1 he
  obtain ⟨l, hjoin⟩ := hw.graph.exists_joins he
  obtain ⟨e', he', hid', hjoin'⟩ := exists_mem_applyAll (o := o) hw statements he hjoin
  rw [← hid'] at hid
  exact ((mem_stale_applyAll hw statements he' hjoin').1 hid).2 ((h l).1 ⟨e, he, hjoin, by simpa using ho⟩)

/-- Nodes that were written again are left alone at the end of a unit. -/
theorem settleAll_of_touched (c : Catalog) (o : String) {previous : List Node} {w : Work}
    (h : ∀ n ∈ previous, n.id ∈ w.touched) : settleAll c o previous w = w := by
  induction previous with
  | nil => rfl
  | cons node rest ih =>
      have hnode : settle c o node w = w := if_pos (List.contains_iff_mem.2 (h node List.mem_cons_self))
      rw [settleAll_cons, hnode]
      exact ih fun n hn => h n (List.mem_cons_of_mem _ hn)

/-- What writing leaves out of the account of a unit. -/
theorem stats_applyAll (w : Work) (statements : List Statement) :
    (applyAll o w statements).stats.pruned = w.stats.pruned ∧
      (applyAll o w statements).stats.demoted = w.stats.demoted ∧
      (applyAll o w statements).stats.reanchored = w.stats.reanchored := by
  induction statements generalizing w with
  | nil => exact ⟨rfl, rfl, rfl⟩
  | cons s rest ih =>
      obtain ⟨hpruned, hdemoted, hreanchored⟩ := ih (s.apply o w)
      have hfirst : (s.apply o w).stats.pruned = w.stats.pruned ∧ (s.apply o w).stats.demoted = w.stats.demoted ∧
          (s.apply o w).stats.reanchored = w.stats.reanchored := by
        cases s with
        | declare n =>
            simp only [Statement.apply]
            split <;> exact ⟨rfl, rfl, rfl⟩
        | relate l locations metadata => exact ⟨rfl, rfl, rfl⟩
      exact ⟨hpruned.trans hfirst.1, hdemoted.trans hfirst.2.1, hreanchored.trans hfirst.2.2⟩

/-- A unit on a graph that agrees with what it says, and whose own nodes it declares, does nothing. -/
theorem unit_of_agrees (hw : (start o g cache).Sound) (h : Agrees o g statements) (hheld : HoldsJust g o statements)
    (hp : ∀ n ∈ previous, n ∈ g.nodes ∧ Declares statements n.identity) :
    (unit c o g cache previous statements).graph.nodes = g.nodes ∧
      (unit c o g cache previous statements).graph.edges = g.edges ∧
      (unit c o g cache previous statements).stats.pruned = 0 ∧
      (unit c o g cache previous statements).stats.demoted = 0 ∧
      (unit c o g cache previous statements).stats.reanchored = 0 := by
  have hstale := stale_eq_nil hw hheld
  have hrelease : (releaseStale o (applyAll o (start o g cache) statements)).graph =
      (applyAll o (start o g cache) statements).graph := by
    rw [releaseStale, hstale]
    rfl
  have htouched : ∀ n ∈ previous, n.id ∈ (releaseStale o (applyAll o (start o g cache) statements)).touched := by
    intro n hn
    have hname := names_applyAll (o := o) hw (Graph.names_of_mem (hp n hn).1) statements
    exact (mem_touched_applyAll hw statements n.id).2 (Or.inr ⟨_, (hp n hn).2, hname⟩)
  rw [unit, prune_eq, settleAll_of_touched c o htouched, hrelease]
  exact ⟨nodes_applyAll_of_agrees hw h, edges_applyAll_of_agrees hw h, stats_applyAll (start o g cache) statements⟩

end

/-! ## Files -/

section

variable {c : Catalog} {g : Graph} {path : String} {category : Category} {o : Outline}

/-- What a file without plain `require`s says in a new session, whatever graph it is said of. -/
def plainStatements (path : String) (category : Category) (o : Outline) : List Statement :=
  fileStatements path category o (fun _ => false) fun _ => false

theorem statements_of_plain (hplain : o.requires = []) (g : Graph) :
    (Change.project path category o).statements ⟨g, {}⟩ = plainStatements path category o := by
  simp only [Change.statements, plainStatements, fileStatements, hplain, requireStatements]
  rfl

/-- Projecting a file without plain `require`s in a new session. -/
theorem projectFile_of_plain (hg : g.WellFormed) (c : Catalog) (path : String) (category : Category)
    (hplain : o.requires = []) :
    projectFile c g {} path category o =
      let w := unit c path g {} (g.anchoredTo path) (plainStatements path category o)
      ⟨w.graph, w.cache, .ok w.stats⟩ := by
  have hknown : KnowsFiles (start path g {}) fun f => (g.nodeId? .file f).isSome :=
    fun f => (Graph.nodeId?_isSome_iff hg _ _).symm
  rw [← statements_of_plain hplain g]
  exact runUnit_eq (says_writeFile ⟨hg, BuildCache.valid_empty g⟩ (fun _ => rfl) hknown category o)

/-- After a unit of a file, the nodes anchored to the file are those that it declares. -/
theorem declares_of_mem_anchoredTo {cache : BuildCache} (hw : (start path g cache).Sound) {statements : List Statement}
    {n : Node} (hn : n ∈ (unit c path g cache (g.anchoredTo path) statements).graph.anchoredTo path) :
    Declares statements n.identity := by
  obtain ⟨hmem, hanchored⟩ := List.mem_filter.1 hn
  obtain ⟨a, ha, hpath⟩ := (Option.any_eq_true _ _).1 hanchored
  rw [decide_eq_true_eq] at hpath
  cases emerges_unit hw List.filter_sublist hmem with
  | declared k mem stored => exact ⟨k, mem, by rw [stored, NewNode.stored_identity]⟩
  | kept mem _ other => exact absurd ((mem_anchoredTo hw.graph mem path).2 ⟨a, ha, hpath⟩) other
  | referred _ _ stored =>
      rw [stored] at ha
      exact absurd ha (by simp [Graph.placeholder, NewNode.stored])
  | moved _ _ _ _ _ _ _ q elsewhere _ definition stored =>
      exact absurd ((definition.path_eq stored ha).symm.trans hpath) elsewhere
  | demoted k _ _ _ _ _ eq =>
      rw [eq] at ha
      exact absurd ha (by simp [Node.demoted])

/-- Projecting a file for a second time, in a new session each time, leaves every node and every edge as the first time
left it, and has nothing to clear away. -/
theorem projectFile_again (hg : Reached g) (c c' : Catalog) (path : String) (category : Category)
    (hplain : o.requires = []) :
    let first := projectFile c g {} path category o
    let second := projectFile c' first.graph {} path category o
    (∃ stats, first.outcome = .ok stats) ∧
    second.graph.nodes = first.graph.nodes ∧ second.graph.edges = first.graph.edges ∧
    ∃ stats, second.outcome = .ok stats ∧ stats.pruned = 0 ∧ stats.demoted = 0 ∧ stats.reanchored = 0 := by
  intro first second
  have hw : (start path g {}).Sound := ⟨hg.wellFormed, BuildCache.valid_empty g⟩
  have hp : (g.anchoredTo path).Sublist g.nodes := List.filter_sublist
  have hfirst : first = _ := projectFile_of_plain hg.wellFormed c path category hplain
  have hsound : (start path first.graph {}).Sound := by
    refine ⟨?_, BuildCache.valid_empty _⟩
    rw [hfirst]
    exact (sound_unit hw hp c (plainStatements path category o)).graph
  have hsecond : second = _ := projectFile_of_plain hsound.graph c' path category hplain
  have hagrees : Agrees path first.graph (plainStatements path category o) := by
    rw [hfirst]
    exact agrees_unit hw hp c _
  have hheld : HoldsJust first.graph path (plainStatements path category o) := by
    intro l
    rw [hfirst, holds_unit hw hp]
    simp
  have hown : ∀ n ∈ first.graph.anchoredTo path,
      n ∈ first.graph.nodes ∧ Declares (plainStatements path category o) n.identity := by
    intro n hn
    refine ⟨(List.mem_filter.1 hn).1, ?_⟩
    rw [hfirst] at hn
    exact declares_of_mem_anchoredTo hw hn
  obtain ⟨hnodes, hedges, hpruned, hdemoted, hreanchored⟩ := unit_of_agrees (c := c') hsound hagrees hheld hown
  rw [hsecond]
  refine ⟨?_, hnodes, hedges, _, rfl, hpruned, hdemoted, hreanchored⟩
  rw [hfirst]
  exact ⟨_, rfl⟩

/-- A class that is opened again with another superclass and a method, and includes a module. -/
def openedAgain : Outline :=
  { declarations := [
      { name := "A", kind := .classDecl, startLine := 1, endLine := 2, superclass := some "B" },
      { name := "A", kind := .classDecl, startLine := 3, endLine := 6, superclass := some "C" },
      { name := "name", kind := .method, startLine := 5, endLine := 5, enclosing := some "A" }]
    includes := ["D"] }

set_option maxRecDepth 4000 in
theorem projectFile_again_openedAgain :
    openedAgain.requires = [] ∧
    let first := projectFile {} declaredTwice {} "a.rb" .model openedAgain
    let second := projectFile {} first.graph {} "a.rb" .model openedAgain
    declaredTwice.edges.map Edge.identity ≠ first.graph.edges.map Edge.identity ∧
    (∃ stats, first.outcome = .ok stats) ∧
    second.graph.nodes = first.graph.nodes ∧ second.graph.edges = first.graph.edges ∧
    ∃ stats, second.outcome = .ok stats ∧ stats.pruned = 0 ∧ stats.demoted = 0 ∧ stats.reanchored = 0 :=
  ⟨rfl, by decide +kernel, projectFile_again reached_declaredTwice {} {} "a.rb" .model rfl⟩

end

end Projection

end CodeAtlas
