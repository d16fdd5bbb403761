import CodeAtlas.Proofs.Graph.Operation
import CodeAtlas.Proofs.Projection.History
/-!
# Ids that last

A unit writes first and clears away afterwards. Its writes only add to the graph (`Graph.Grows`), in whatever session
they are made and whether or not they come to their end; what follows them only takes away (`Graph.Shrinks`). So a node
or an edge that is there before and after a unit was there all the time, and has kept its id (`ids_last`).
-/

namespace CodeAtlas

namespace Graph

/-- Nodes and edges from before are there under their ids. -/
structure Grows (g g' : Graph) : Prop where
  wellFormed : g'.WellFormed
  names : ∀ id i, g.Names id i → g'.Names id i
  edges : ∀ e ∈ g.edges, ∃ e' ∈ g'.edges, e'.id = e.id ∧ e'.identity = e.identity

/-- Nodes and edges that are there were there before, under their ids. -/
structure Shrinks (g g' : Graph) : Prop where
  wellFormed : g'.WellFormed
  names : ∀ id i, g'.Names id i → g.Names id i
  edges : ∀ e ∈ g'.edges, ∃ e' ∈ g.edges, e'.id = e.id ∧ e'.identity = e.identity

variable {g g' g'' : Graph}

theorem Grows.refl (hg : g.WellFormed) : g.Grows g := ⟨hg, fun _ _ h => h, fun e he => ⟨e, he, rfl, rfl⟩⟩

theorem Shrinks.refl (hg : g.WellFormed) : g.Shrinks g := ⟨hg, fun _ _ h => h, fun e he => ⟨e, he, rfl, rfl⟩⟩

theorem Grows.trans (h : g.Grows g') (h' : g'.Grows g'') : g.Grows g'' := by
  refine ⟨h'.wellFormed, fun id i hi => h'.names id i (h.names id i hi), ?_⟩
  intro e he
  obtain ⟨e', he', hid, hi⟩ := h.edges e he
  obtain ⟨e'', he'', hid', hi'⟩ := h'.edges e' he'
  exact ⟨e'', he'', hid'.trans hid, hi'.trans hi⟩

theorem Shrinks.trans (h : g.Shrinks g') (h' : g'.Shrinks g'') : g.Shrinks g'' := by
  refine ⟨h'.wellFormed, fun id i hi => h.names id i (h'.names id i hi), ?_⟩
  intro e he
  obtain ⟨e', he', hid, hi⟩ := h'.edges e he
  obtain ⟨e'', he'', hid', hi'⟩ := h.edges e' he'
  exact ⟨e'', he'', hid'.trans hid, hi'.trans hi⟩

/-- What is there before writes and after clearing away was there in between. -/
theorem Grows.node_id_eq (h : g.Grows g') (h' : g'.Shrinks g'') {n m : Node} (hn : n ∈ g.nodes) (hm : m ∈ g''.nodes)
    (hi : m.identity = n.identity) : m.id = n.id := by
  have hname := h.names _ _ (names_of_mem hn)
  have hname' := h'.names _ _ (names_of_mem hm)
  rw [hi] at hname'
  exact hname'.id_eq h.wellFormed hname

theorem Grows.edge_id_eq (h : g.Grows g') (h' : g'.Shrinks g'') {e f : Edge} (he : e ∈ g.edges) (hf : f ∈ g''.edges)
    (hi : f.identity = e.identity) : f.id = e.id := by
  obtain ⟨e', he', hid, hei⟩ := h.edges e he
  obtain ⟨f', hf', hfid, hfi⟩ := h'.edges f hf
  have hsame := h.wellFormed.edge_eq_of_identity hf' he' (by rw [hfi, hi, hei])
  rw [← hfid, hsame, hid]

/-! ## Writes -/

theorem Grows.upsertNode (hg : g.WellFormed) (n : NewNode) : g.Grows (g.upsertNode n).1 := by
  refine ⟨hg.upsertNode n, fun id i hi => hi.upsertNode hg n, ?_⟩
  intro e he
  rw [upsertNode_edges]
  exact ⟨e, he, rfl, rfl⟩

theorem Grows.ensureNode (hg : g.WellFormed) (k : NodeKind) (key : String) : g.Grows (g.ensureNode k key).1 := by
  refine ⟨hg.ensureNode k key, fun id i hi => hi.ensureNode hg (k, key), ?_⟩
  intro e he
  rw [ensureNode_edges]
  exact ⟨e, he, rfl, rfl⟩

/-- An edge that is written stands in place of the one with its identity, under the same id. -/
theorem Grows.putEdge (hg : g.WellFormed) {n : NewEdge} {s t : Identity} (hs : g.Names n.source s)
    (ht : g.Names n.target t) : g.Grows (g.putEdge n).1 := by
  refine ⟨hg.putEdge hs ht, fun id i hi => (names_putEdge g n id i).2 hi, ?_⟩
  intro e he
  by_cases hi : e.identity = n.identity
  · refine ⟨_, (mem_putEdge hg n _).2 (Or.inl rfl), putEdge_snd_of_mem hg he hi, ?_⟩
    rw [hi]
    rfl
  · exact ⟨e, (mem_putEdge hg n e).2 (Or.inr ⟨he, hi⟩), rfl, rfl⟩

/-! ## Clearing away -/

theorem Shrinks.releaseAll (hg : g.WellFormed) (ids : List Int) (o : String) : g.Shrinks (g.releaseAll ids o) := by
  refine ⟨hg.releaseAll ids o, fun id i hi => (names_releaseAll g ids o id i).1 hi, ?_⟩
  intro e he
  obtain ⟨f, hf, hid, hi⟩ := exists_of_mem_releaseAll hg he
  exact ⟨f, hf, hid.symm, hi.symm⟩

end Graph

namespace Projection

/-! ## The writes of a unit -/

/-- A step that only adds to the graph, from whatever state it is taken and however it ends. -/
def Growing {α : Type} (m : Build α) : Prop :=
  ∀ w : Work, w.graph.WellFormed → w.graph.Grows (m.run.run w).2.graph

theorem run_bind_of_error {α β : Type} {m : Build α} {f : α → Build β} {w w' : Work} {e : Error}
    (h : m.run.run w = (.error e, w')) : (m >>= f).run.run w = (.error e, w') := by
  rw [ExceptT.run_bind, StateT.run_bind, h]
  rfl

theorem growing_pure {α : Type} (a : α) : Growing (pure a) := fun _ hg => .refl hg

theorem growing_get : Growing get := fun _ hg => .refl hg

theorem Growing.bind {α β : Type} {m : Build α} {f : α → Build β} (hm : Growing m) (hf : ∀ a, Growing (f a)) :
    Growing (m >>= f) := by
  intro w hg
  have hfirst := hm w hg
  match hrun : m.run.run w with
  | (.ok a, w') =>
      rw [hrun] at hfirst
      rw [run_bind_of_ok hrun]
      exact hfirst.trans (hf a w' hfirst.wellFormed)
  | (.error e, w') =>
      rw [hrun] at hfirst
      rw [run_bind_of_error hrun]
      exact hfirst

theorem growing_writeNode (n : NewNode) : Growing (writeNode n) := fun _ hg => .upsertNode hg n

theorem growing_resolve (k : NodeKind) (key : String) : Growing (resolve k key) := by
  intro w hg
  rw [resolve, run_bind_of_ok (run_get w)]
  cases w.cache.lookup k key with
  | some id => exact .refl hg
  | none => exact .ensureNode hg k key

/-- An edge between nodes that are not there is refused, and nothing changes. -/
theorem growing_writeEdge (o : String) (e : NewEdge) : Growing (writeEdge o e) := by
  intro w hg
  rw [writeEdge, run_bind_of_ok (run_get w)]
  rcases Graph.upsertEdge_cases w.graph { e with origin := some o } with ⟨s, t, hs, ht, hput⟩ | hrefused
  · simp only [hput]
    exact .putEdge hg hs ht
  · simp only [hrefused]
    exact .refl hg

section

variable (path : String)

theorem growing_writeOwner (owner : Option Int) (id : Int) (d : Declaration) :
    Growing (writeOwner path owner id d) := by
  unfold writeOwner
  cases owner.filter (· ≠ id) with
  | none => exact growing_pure ()
  | some owner => exact growing_writeEdge path _

theorem growing_writeAncestry (kind : NodeKind) (id : Int) (d : Declaration) (primary : Primary) :
    Growing (writeAncestry path kind id d primary) := by
  unfold writeAncestry
  split
  · cases d.superclass with
    | none => exact growing_pure _
    | some name =>
        exact (growing_resolve _ _).bind fun _ => (growing_writeEdge path _).bind fun _ => growing_pure _
  · exact growing_pure _
  · exact growing_pure _

theorem growing_writeDeclaration (file : Int) (primary : Primary) (d : Declaration) :
    Growing (writeDeclaration path file primary d) := by
  cases hi : nodeOf? d with
  | none =>
      simp only [writeDeclaration, hi]
      exact growing_pure primary
  | some i =>
      rw [writeDeclaration_of_some hi]
      exact growing_get.bind fun _ => (growing_writeNode _).bind fun id => (growing_writeEdge path _).bind fun _ =>
        (growing_writeOwner path _ id d).bind fun _ => growing_writeAncestry path i.1 id d primary

theorem growing_writeDeclarations (file : Int) (primary : Primary) (ds : List Declaration) :
    Growing (writeDeclarations path file primary ds) := by
  induction ds generalizing primary with
  | nil => exact growing_pure primary
  | cons d rest ih => exact (growing_writeDeclaration path file primary d).bind fun p => ih p

theorem growing_writeMixins (kind : EdgeKind) (owner : Int) (names : List String) :
    Growing (writeMixins path kind owner names) := by
  induction names with
  | nil => exact growing_pure ()
  | cons name rest ih => exact (growing_resolve _ _).bind fun _ => (growing_writeEdge path _).bind fun _ => ih

theorem growing_writeRequires (file : Int) (requires : List String) :
    Growing (writeRequires path file requires) := by
  induction requires with
  | nil => exact growing_pure ()
  | cons required rest ih =>
      exact growing_get.bind fun _ => (growing_resolve _ _).bind fun _ => (growing_writeEdge path _).bind fun _ => ih

theorem growing_writeRelatives (file : Int) (relatives : List String) :
    Growing (writeRelatives path file relatives) := by
  induction relatives with
  | nil => exact growing_pure ()
  | cons relative rest ih => exact (growing_resolve _ _).bind fun _ => (growing_writeEdge path _).bind fun _ => ih

theorem growing_writeAssociations (owner : Int) (associations : List DeclaredAssociation) :
    Growing (writeAssociations path owner associations) := by
  induction associations with
  | nil => exact growing_pure ()
  | cons a rest ih => exact (growing_resolve _ _).bind fun _ => (growing_writeEdge path _).bind fun _ => ih

theorem growing_writeFile (category : Category) (o : Outline) : Growing (writeFile path category o) := by
  rw [writeFile_eq]
  refine Growing.bind ?_ fun p => ?_
  · exact (growing_writeNode _).bind fun file => (growing_writeDeclarations path file {} _).bind fun _ =>
      (growing_writeMixins path _ _ _).bind fun _ => (growing_writeMixins path _ _ _).bind fun _ => growing_pure _
  · refine (growing_writeRequires path p.1 _).bind fun _ => (growing_writeRelatives path p.1 _).bind fun _ => ?_
    cases p.2.class? with
    | none => exact growing_pure ()
    | some owner => exact growing_writeAssociations path owner _

end

section

open CodeAtlas.Schema

variable (tableIds : List (String × Int))

theorem growing_writeTables (tables : List Table) : Growing (writeTables tables) := by
  induction tables with
  | nil => exact growing_pure []
  | cons t rest ih => exact (growing_writeNode _).bind fun _ => ih.bind fun _ => growing_pure _

theorem growing_writeInferred (names : List String) (c : Column) (id : Int) :
    Growing (writeInferred tableIds names c id) := by
  unfold writeInferred
  split
  · exact growing_writeEdge origin _
  · exact growing_pure ()

theorem growing_writeColumns (names : List String) (t : Table) (tableId : Int) (columns : List Column) :
    Growing (writeColumns tableIds names t tableId columns) := by
  induction columns with
  | nil => exact growing_pure []
  | cons c rest ih =>
      rw [writeColumns_cons]
      exact (growing_writeNode _).bind fun id => (growing_writeEdge origin _).bind fun _ =>
        (growing_writeInferred tableIds names c id).bind fun _ => ih.bind fun _ => growing_pure _

theorem growing_writeBacking (t : Table) (tableId : Int) : Growing (writeBacking t tableId) := by
  refine growing_get.bind fun w => ?_
  dsimp only
  split
  · exact growing_writeEdge origin _
  · exact growing_pure ()

theorem growing_writeContents (names : List String) (tables : List Table) :
    Growing (writeContents tableIds names tables) := by
  induction tables with
  | nil => exact growing_pure []
  | cons t rest ih =>
      rw [writeContents]
      split
      · exact ih
      · next tableId _ =>
          exact (growing_writeColumns tableIds names t tableId _).bind fun _ =>
            (growing_writeBacking t tableId).bind fun _ => ih.bind fun _ => growing_pure _

theorem growing_writeForeignKeys (columnIds : List (String × Int)) (keys : List ForeignKey) :
    Growing (writeForeignKeys tableIds columnIds keys) := by
  induction keys with
  | nil => exact growing_pure ()
  | cons k rest ih =>
      rw [writeForeignKeys]
      split
      · exact (growing_writeEdge origin _).bind fun _ => ih
      · exact (growing_pure ()).bind fun _ => ih

theorem growing_writeIndexes (indexes : List Index) : Growing (writeIndexes tableIds indexes) := by
  induction indexes with
  | nil => exact growing_pure ()
  | cons i rest ih =>
      rw [writeIndexes]
      split
      · exact (growing_writeNode _).bind fun _ => (growing_writeEdge origin _).bind fun _ => ih
      · exact (growing_pure ()).bind fun _ => ih

theorem growing_writeSchema (s : Schema) : Growing (writeSchema s) :=
  (growing_writeTables s.tables).bind fun tableIds => (growing_writeContents tableIds _ _).bind fun columnIds =>
    (growing_writeForeignKeys tableIds columnIds _).bind fun _ => growing_writeIndexes tableIds _

end

/-! ## The end of a unit -/

variable {o : String} {node : Node} {w w' : Work}

theorem Settled.shrinks (hg : w.graph.WellFormed) (hnode : w.graph.Names node.id node.identity)
    (h : Settled o node w w') : w.graph.Shrinks w'.graph := by
  refine ⟨h.wellFormed hg, ?_, ?_⟩
  · intro id i hi
    by_cases hid : id = node.id
    · cases h with
      | kept _ same => rw [same] at hi; exact hi
      | moved d _ _ _ _ _ identity _ graph _ _ =>
          rw [graph, Graph.names_upsertNode hg] at hi
          rcases hi with hi | ⟨_, rfl⟩
          · exact hi
          · rw [hid, identity]
            exact hnode
      | demoted _ _ _ graph _ _ =>
          rw [graph, Graph.names_demoteNode] at hi
          exact hi
      | deleted _ _ graph _ _ =>
          rw [graph, Graph.names_deleteNode] at hi
          exact hi.1
    · exact (h.names_iff_of_ne hg hnode hid i).1 hi
  · intro e he
    rw [h.edges_eq] at he
    exact ⟨e, he, rfl, rfl⟩

theorem shrinks_settleAll (hg : w.graph.WellFormed) (c : Catalog) (o : String) {previous : List Node}
    (hl : Lists w.graph previous) : w.graph.Shrinks (settleAll c o previous w).graph := by
  induction previous generalizing w with
  | nil => exact .refl hg
  | cons node rest ih =>
      have hs := settled_settle hg c o node
      have hfirst := hs.shrinks hg (hl.names node List.mem_cons_self)
      rw [settleAll_cons]
      exact hfirst.trans (ih hfirst.wellFormed (hs.lists hg hl))

/-- The end of a unit whose own nodes are still there under their names. -/
theorem shrinks_prune (hg : w.graph.WellFormed) (c : Catalog) (o : String) {previous : List Node}
    (hl : Lists w.graph previous) : w.graph.Shrinks (prune c o previous w).graph := by
  have hrelease : w.graph.Shrinks (releaseStale o w).graph := .releaseAll hg w.stale o
  rw [prune_eq]
  refine hrelease.trans (shrinks_settleAll hrelease.wellFormed c o ⟨hl.nodup, ?_⟩)
  intro n hn
  exact (Graph.names_releaseAll _ _ _ _ _).2 (hl.names n hn)

/-- What a unit leaves, by how its writes end. -/
theorem runUnit_graph (c : Catalog) (g : Graph) (cache : BuildCache) (o : String) (previous : List Node)
    (writes : Build Unit) :
    (runUnit c g cache o previous writes).graph = (writes.run.run (start o g cache)).2.graph ∨
      (runUnit c g cache o previous writes).graph =
        (prune c o previous (writes.run.run (start o g cache)).2).graph := by
  have hstart : ({ graph := g, cache := cache, stale := g.edgesHeldBy o } : Work) = start o g cache := rfl
  simp only [runUnit, hstart]
  generalize writes.run.run (start o g cache) = ended
  obtain ⟨outcome, w⟩ := ended
  cases outcome with
  | error e => exact Or.inl rfl
  | ok a => exact Or.inr rfl

/-- A unit adds to the graph, and then takes away from it. -/
theorem exists_grows_shrinks {g : Graph} (hg : g.WellFormed) (c : Catalog) (cache : BuildCache) {previous : List Node}
    (hp : previous.Sublist g.nodes) {writes : Build Unit} (hwrites : Growing writes) :
    ∃ written, g.Grows written ∧ written.Shrinks (runUnit c g cache o previous writes).graph := by
  have hgrows := hwrites (start o g cache) hg
  refine ⟨_, hgrows, ?_⟩
  rcases runUnit_graph c g cache o previous writes with hend | hend
  · rw [hend]
    exact .refl hgrows.wellFormed
  · rw [hend]
    refine shrinks_prune hgrows.wellFormed c o ⟨hg.nodeIds.sublist (hp.map _), ?_⟩
    intro n hn
    exact hgrows.names _ _ (Graph.names_of_mem (hp.subset hn))

/-! ## Units in any session -/

theorem exists_grows_shrinks_run {s : Session} (hg : s.graph.WellFormed) (c : Catalog) (change : Change) :
    ∃ written, s.graph.Grows written ∧ written.Shrinks (change.run c s).graph := by
  have hp := previous_sublist change s.graph
  cases change with
  | project path category o => exact exists_grows_shrinks hg c s.cache hp (growing_writeFile path category o)
  | retract path => exact exists_grows_shrinks hg c s.cache hp (growing_pure ())
  | projectSchema schema => exact exists_grows_shrinks hg c s.cache hp (growing_writeSchema schema)
  | retractSchema => exact exists_grows_shrinks hg c s.cache hp (growing_writeSchema {})

/-- The graphs that units lead to from nothing, each in a session of any kind and with any catalog, and whether or not
it comes to its end; in between a graph may be cleared. -/
inductive Reached : Graph → Prop
  | empty : Reached {}
  | cleared {g : Graph} (before : Reached g) : Reached g.clear
  | unit {g : Graph} (before : Reached g) (c : Catalog) (cache : BuildCache) (change : Change) :
      Reached (change.run c ⟨g, cache⟩).graph

theorem Reached.wellFormed {g : Graph} (h : Reached g) : g.WellFormed := by
  induction h with
  | empty => exact Graph.wellFormed_empty
  | cleared _ _ => exact Graph.wellFormed_clear _
  | unit _ c cache change ih =>
      obtain ⟨written, _, hshrinks⟩ := exists_grows_shrinks_run (s := ⟨_, cache⟩) ih c change
      exact hshrinks.wellFormed

/-- No unit renumbers what it leaves: a node that is there before and after it by its kind and key has the same id, and
so has an edge that is there by its kind and ends. -/
theorem ids_last {g : Graph} (hg : Reached g) (c : Catalog) (cache : BuildCache) (change : Change) :
    (∀ n ∈ g.nodes, ∀ m ∈ (change.run c ⟨g, cache⟩).graph.nodes, m.identity = n.identity → m.id = n.id) ∧
      ∀ e ∈ g.edges, ∀ f ∈ (change.run c ⟨g, cache⟩).graph.edges, f.identity = e.identity → f.id = e.id := by
  obtain ⟨written, hgrows, hshrinks⟩ := exists_grows_shrinks_run (s := ⟨g, cache⟩) hg.wellFormed c change
  exact ⟨fun _ hn _ hm => hgrows.node_id_eq hshrinks hn hm, fun _ he _ hf => hgrows.edge_id_eq hshrinks he hf⟩

/-- A class with a superclass. -/
def subclassing : Outline :=
  { declarations := [{ name := "A", kind := .classDecl, startLine := 1, endLine := 2, superclass := some "B" }] }

/-- Two files declare the same class. -/
def declaredTwice : Graph :=
  ((Change.project "b.rb" .model subclassing).run {}
    ⟨((Change.project "a.rb" .model subclassing).run {} {}).graph, {}⟩).graph

theorem reached_declaredTwice : Reached declaredTwice := .unit (.unit .empty {} {} _) {} {} _

set_option maxRecDepth 4000 in
theorem ids_last_declaredTwice :
    (.classDecl, "A") ∈ declaredTwice.nodes.map Node.identity ∧
    (.classDecl, "A") ∈ ((Change.retract "a.rb").run {} ⟨declaredTwice, {}⟩).graph.nodes.map Node.identity ∧
    (∀ n ∈ declaredTwice.nodes, ∀ m ∈ ((Change.retract "a.rb").run {} ⟨declaredTwice, {}⟩).graph.nodes,
      m.identity = n.identity → m.id = n.id) ∧
    ∀ e ∈ declaredTwice.edges, ∀ f ∈ ((Change.retract "a.rb").run {} ⟨declaredTwice, {}⟩).graph.edges,
      f.identity = e.identity → f.id = e.id :=
  ⟨by decide +kernel, by decide +kernel, ids_last reached_declaredTwice {} {} (.retract "a.rb")⟩

end Projection

end CodeAtlas
