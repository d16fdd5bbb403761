import CodeAtlas.Proofs.Graph.Placeholder
import CodeAtlas.Proofs.Projection.Statement
/-!
# The end of a unit

At its end a unit lets go of the edges that it did not write again, and deals with the nodes that were its own: each
of them is kept because it was written again, moved to another file whose `defines` edge reaches it, demoted because
an edge touches it, or deleted (`settle_cases`). None of this touches an edge, so that what is held after a whole
unit is what others held before and what the unit states (`holds_unit`).
-/

namespace CodeAtlas

/-- The node is written as the definition that a file gives: anchored there, with metadata that do not call it
inferred. -/
structure NewNode.DefinedIn (n : NewNode) (path : String) : Prop where
  anchor : ∃ a, n.anchor = some a ∧ a.path = path
  source : n.source = .fromSource
  isRecord : n.metadata.IsRecord
  notInferred : ∀ id, (n.stored id).isInferred = false

/-- A node that is stored as a file defines it is anchored to the file. -/
theorem NewNode.DefinedIn.path_eq {n : NewNode} {path : String} (h : n.DefinedIn path) {m : Node}
    (hm : m = n.stored m.id) {a : Anchor} (ha : m.anchor = some a) : a.path = path := by
  obtain ⟨a', ha', hpath⟩ := h.anchor
  rw [hm] at ha
  rw [← hpath]
  exact congrArg Anchor.path (Option.some.inj (ha.symm.trans ha'))

theorem NewNode.DefinedIn.anchor_ne_none {n : NewNode} {path : String} (h : n.DefinedIn path) {m : Node}
    (hm : m = n.stored m.id) : m.anchor ≠ none := by
  obtain ⟨a, ha, _⟩ := h.anchor
  intro hnone
  rw [hm] at hnone
  exact absurd (ha.symm.trans hnone) (by simp)

/-- A `defines` edge with the line of the definition leads from a file to the node with the id `id`. -/
def Graph.DefinedIn (g : Graph) (id : Int) (path : String) : Prop :=
  ∃ e ∈ g.edges, e.kind = .defines ∧ e.target = id ∧ g.Names e.source (.file, path) ∧
    ∃ line, e.locations.findSome? Projection.locationLine? = some line

namespace Projection

theorem definition?_eq_some_iff {g : Graph} (hg : g.WellFormed) (o : String) (e : Edge) (path : String) (line : Nat) :
    definition? g o e = some (path, line) ↔
      e.kind = .defines ∧ g.Names e.source (.file, path) ∧ path ≠ o ∧
        e.locations.findSome? locationLine? = some line := by
  unfold definition?
  by_cases hk : e.kind = .defines
  · rw [if_neg (by simpa using hk)]
    cases hs : g.node? e.source with
    | none =>
        simp only [reduceCtorEq, false_iff, not_and]
        intro _ hname
        have hsome := hname.node?_isSome
        rw [hs] at hsome
        exact absurd hsome (by simp)
    | some file =>
        dsimp only
        obtain ⟨hfile, hid⟩ := (Graph.node?_eq_some_iff hg _ _).1 hs
        have hname : ∀ p, g.Names e.source (.file, p) ↔ file.kind = .file ∧ file.key = p := by
          intro p
          constructor
          · rintro ⟨n, hn, hnid, hi⟩
            rw [hg.node_eq_of_id hn hfile (hnid.trans hid.symm)] at hi
            simpa [Node.identity] using hi
          · rintro ⟨hkind, hkey⟩
            exact ⟨file, hfile, hid, by simp [Node.identity, hkind, hkey]⟩
        by_cases hcond : file.kind = .file ∧ file.key ≠ o
        · rw [if_neg (by simpa using hcond)]
          simp only [Option.map_eq_some_iff, Prod.mk.injEq, hname]
          constructor
          · rintro ⟨a, ha, rfl, rfl⟩
            exact ⟨hk, ⟨hcond.1, rfl⟩, hcond.2, ha⟩
          · rintro ⟨_, ⟨_, rfl⟩, _, ha⟩
            exact ⟨line, ha, rfl, rfl⟩
        · rw [if_pos (by
            simp only [Bool.or_eq_true, decide_eq_true_eq]
            by_contra hboth
            rw [not_or] at hboth
            exact hcond ⟨not_not.1 hboth.1, hboth.2⟩)]
          simp only [reduceCtorEq, false_iff, hname]
          rintro ⟨_, ⟨hkind, rfl⟩, hne, _⟩
          exact hcond ⟨hkind, hne⟩
  · rw [if_pos (by simpa using hk)]
    simp [hk]

/-- What a redefinition says, whatever the catalog and the graph know. -/
theorem redefinition_definedIn (c : Catalog) (g : Graph) (node : Node) (kind : SymbolKind) (path : String)
    (line : Nat) : (redefinition c g node kind path line).DefinedIn path := by
  refine ⟨?_, rfl, Json.isRecord_record _, ?_⟩
  · simp only [redefinition]
    split <;> exact ⟨_, rfl, rfl⟩
  · intro id
    refine Node.isInferred_stored_record rfl ?_ id
    intro h
    obtain ⟨field, hfield, hname⟩ := List.mem_map.1 h
    simp only [List.mem_append] at hfield
    rcases hfield with (hfield | hfield) | hfield
    · split at hfield
      · rename_i s _
        rcases List.mem_cons.1 hfield with rfl | hfield
        · exact absurd hname (by simp)
        · cases hsig : s.signature with
          | none => simp [hsig] at hfield
          | some t =>
              simp only [hsig, Option.map_some, Option.toList_some, List.mem_singleton] at hfield
              subst hfield
              exact absurd hname (by simp)
      · exact absurd hfield (by simp)
    · cases hsup : superclassFrom? g node.id path with
      | none => simp [hsup] at hfield
      | some t =>
          simp only [hsup, Option.map_some, Option.toList_some, List.mem_singleton] at hfield
          subst hfield
          exact absurd hname (by simp)
    · split at hfield
      · simp only [List.mem_singleton] at hfield
        subst hfield
        exact absurd hname (by simp)
      · exact absurd hfield (by simp)

/-- A node that is found to be defined elsewhere is written as another file defines it. -/
theorem definedElsewhere?_eq_some {c : Catalog} {g : Graph} (hg : g.WellFormed) {o : String} {node : Node}
    {d : NewNode} (h : definedElsewhere? c g o node = some d) :
    (definingKind? node.kind).isSome = true ∧
      ∃ path, path ≠ o ∧ g.DefinedIn node.id path ∧ d.identity = node.identity ∧ d.DefinedIn path := by
  simp only [definedElsewhere?, Option.bind_eq_some_iff, Option.map_eq_some_iff] at h
  obtain ⟨kind, hkind, ⟨path, line⟩, hfind, rfl⟩ := h
  obtain ⟨e, he, hdef⟩ := List.exists_of_findSome?_eq_some hfind
  obtain ⟨he, htarget⟩ := List.mem_filter.1 he
  obtain ⟨hk, hname, hne, hline⟩ := (definition?_eq_some_iff hg o e path line).1 hdef
  exact ⟨by rw [hkind]; rfl, path, hne, ⟨e, he, hk, by simpa using htarget, hname, line, hline⟩, rfl,
    redefinition_definedIn c g node kind path line⟩

theorem definedElsewhere?_eq_none {c : Catalog} {g : Graph} (hg : g.WellFormed) {o : String} {node : Node}
    (h : definedElsewhere? c g o node = none) (hkind : (definingKind? node.kind).isSome = true) {path : String}
    (hne : path ≠ o) : ¬ g.DefinedIn node.id path := by
  rintro ⟨e, he, hk, htarget, hname, line, hline⟩
  obtain ⟨kind, hkind⟩ := Option.isSome_iff_exists.1 hkind
  simp only [definedElsewhere?, hkind, Option.bind_some, Option.map_eq_none_iff, List.findSome?_eq_none_iff] at h
  have hnone := h e (List.mem_filter.2 ⟨he, by simpa using htarget⟩)
  rw [(definition?_eq_some_iff hg o e path line).2 ⟨hk, hname, hne, hline⟩] at hnone
  exact absurd hnone (by simp)

/-! ## One node -/

/-- What becomes of a node that was the unit's own before. -/
inductive Settled (o : String) (node : Node) (w w' : Work) : Prop
  | kept (touched : node.id ∈ w.touched) (same : w' = w)
  | moved (d : NewNode) (path : String) (untouched : node.id ∉ w.touched)
      (kind : (definingKind? node.kind).isSome = true) (other : path ≠ o)
      (defined : w.graph.DefinedIn node.id path) (identity : d.identity = node.identity) (definition : d.DefinedIn path)
      (graph : w'.graph = (w.graph.upsertNode d).1) (cache : w'.cache = w.cache) (written : w'.touched = w.touched)
  | demoted (untouched : node.id ∉ w.touched)
      (undefined : (definingKind? node.kind).isSome = true → ∀ path, path ≠ o → ¬ w.graph.DefinedIn node.id path)
      (referenced : w.graph.isReferenced node.id = true)
      (graph : w'.graph = w.graph.demoteNode node.id) (cache : w'.cache = w.cache.forget node.kind node.key)
      (written : w'.touched = w.touched)
  | deleted (untouched : node.id ∉ w.touched) (unreferenced : w.graph.isReferenced node.id = false)
      (graph : w'.graph = w.graph.deleteNode node.id) (cache : w'.cache = w.cache.forget node.kind node.key)
      (written : w'.touched = w.touched)

variable {c : Catalog} {o : String} {node : Node} {w w' : Work}

theorem settled_settle (hg : w.graph.WellFormed) (c : Catalog) (o : String) (node : Node) :
    Settled o node w (settle c o node w) := by
  unfold settle
  by_cases htouched : node.id ∈ w.touched
  · rw [if_pos (List.contains_iff_mem.2 htouched)]
    exact .kept htouched rfl
  · rw [if_neg (by simpa using htouched)]
    cases hd : definedElsewhere? c w.graph o node with
    | some d =>
        obtain ⟨hkind, path, hne, hdefined, hi, hdef⟩ := definedElsewhere?_eq_some hg hd
        exact .moved d path htouched hkind hne hdefined hi hdef rfl rfl rfl
    | none =>
        by_cases href : w.graph.isReferenced node.id = true
        · dsimp only
          rw [if_pos href]
          exact .demoted htouched (fun hkind path hne => definedElsewhere?_eq_none hg hd hkind hne) href rfl rfl rfl
        · dsimp only
          rw [if_neg href]
          exact .deleted htouched (by simpa using href) rfl rfl rfl

namespace Settled

theorem touched_eq (h : Settled o node w w') : w'.touched = w.touched := by
  cases h with
  | kept _ same => rw [same]
  | moved _ _ _ _ _ _ _ _ _ _ written => exact written
  | demoted _ _ _ _ _ written => exact written
  | deleted _ _ _ _ written => exact written

/-- No edge is touched. -/
theorem edges_eq (h : Settled o node w w') : w'.graph.edges = w.graph.edges := by
  cases h with
  | kept _ same => rw [same]
  | moved _ _ _ _ _ _ _ _ graph _ _ => rw [graph, Graph.upsertNode_edges]
  | demoted _ _ _ graph _ _ => rw [graph, Graph.demoteNode_edges]
  | deleted _ unreferenced graph _ _ => rw [graph, Graph.deleteNode_edges_of_not_referenced unreferenced]

theorem wellFormed (hg : w.graph.WellFormed) (h : Settled o node w w') : w'.graph.WellFormed := by
  cases h with
  | kept _ same => rw [same]; exact hg
  | moved d _ _ _ _ _ _ _ graph _ _ => rw [graph]; exact hg.upsertNode d
  | demoted _ _ _ graph _ _ => rw [graph]; exact hg.demoteNode node.id
  | deleted _ _ graph _ _ => rw [graph]; exact hg.deleteNode node.id

/-- The other nodes keep their names, and none gets a new one. -/
theorem names_iff_of_ne (hg : w.graph.WellFormed) (hnode : w.graph.Names node.id node.identity)
    (h : Settled o node w w') {id : Int} (hid : id ≠ node.id) (i : Identity) :
    w'.graph.Names id i ↔ w.graph.Names id i := by
  cases h with
  | kept _ same => rw [same]
  | moved d _ _ _ _ _ identity _ graph _ _ =>
      rw [← identity] at hnode
      rw [graph, Graph.names_upsertNode hg, Graph.upsertNode_snd_of_names hg hnode]
      simp [hid]
  | demoted _ _ _ graph _ _ => rw [graph, Graph.names_demoteNode]
  | deleted _ _ graph _ _ =>
      rw [graph, Graph.names_deleteNode]
      simp [hid]

/-- A node at the end of an edge keeps its name. -/
theorem names_iff_of_referenced (hg : w.graph.WellFormed) (hnode : w.graph.Names node.id node.identity)
    (h : Settled o node w w') {id : Int} (hid : w.graph.isReferenced id = true) (i : Identity) :
    w'.graph.Names id i ↔ w.graph.Names id i := by
  by_cases hne : id = node.id
  · subst hne
    cases h with
    | kept _ same => rw [same]
    | moved d _ _ _ _ _ identity _ graph _ _ =>
        rw [graph, Graph.names_upsertNode hg, identity]
        constructor
        · rintro (hi | ⟨_, rfl⟩)
          · exact hi
          · exact hnode
        · exact Or.inl
    | demoted _ _ _ graph _ _ => rw [graph, Graph.names_demoteNode]
    | deleted _ unreferenced _ _ _ =>
        rw [hid] at unreferenced
        exact absurd unreferenced (by simp)
  · exact h.names_iff_of_ne hg hnode hne i

theorem sound (hw : w.Sound) (hnode : w.graph.Names node.id node.identity) (h : Settled o node w w') : w'.Sound := by
  refine ⟨h.wellFormed hw.graph, ?_⟩
  have hforget : (w.cache.forget node.kind node.key).Valid w'.graph := by
    refine hw.cache.forget ?_
    intro id i hi hne
    refine (h.names_iff_of_ne hw.graph hnode ?_ i).2 hi
    rintro rfl
    exact hne (hi.identity_eq hw.graph hnode)
  cases h with
  | kept _ same => rw [same]; exact hw.cache
  | moved d _ _ _ _ _ _ _ graph cache _ =>
      rw [cache, graph]
      exact hw.cache.mono fun id i hi => hi.upsertNode hw.graph d
  | demoted _ _ _ _ cache _ => rw [cache]; exact hforget
  | deleted _ _ _ cache _ => rw [cache]; exact hforget

/-- The links stay as they are. -/
theorem joins_iff (hg : w.graph.WellFormed) (hnode : w.graph.Names node.id node.identity)
    (h : Settled o node w w') {e : Edge} (he : e ∈ w.graph.edges) (l : Link) :
    w'.graph.Joins e l ↔ w.graph.Joins e l := by
  have hsource : w.graph.isReferenced e.source = true := Graph.isReferenced_source he
  have htarget : w.graph.isReferenced e.target = true := Graph.isReferenced_target he
  simp only [Graph.Joins, h.names_iff_of_referenced hg hnode hsource, h.names_iff_of_referenced hg hnode htarget]

theorem definedIn_iff (hg : w.graph.WellFormed) (hnode : w.graph.Names node.id node.identity)
    (h : Settled o node w w') (id : Int) (path : String) :
    w'.graph.DefinedIn id path ↔ w.graph.DefinedIn id path := by
  simp only [Graph.DefinedIn, h.edges_eq]
  refine exists_congr fun e => and_congr_right fun he => ?_
  rw [h.names_iff_of_referenced hg hnode (Graph.isReferenced_source he)]

/-- What is built afterwards was built before. -/
theorem isBuilt_of (h : Settled o node w w') {k : NodeKind} {key : String}
    (hbuilt : w'.cache.isBuilt k key = true) : w.cache.isBuilt k key = true := by
  cases h with
  | kept _ same => rw [← same]; exact hbuilt
  | moved _ _ _ _ _ _ _ _ _ cache _ => rw [← cache]; exact hbuilt
  | demoted _ _ _ _ cache _ =>
      rw [cache] at hbuilt
      exact BuildCache.isBuilt_of_forget hbuilt
  | deleted _ _ _ cache _ =>
      rw [cache] at hbuilt
      exact BuildCache.isBuilt_of_forget hbuilt

end Settled

/-! ## All nodes -/

/-- Deals with nodes in turn. -/
def settleAll (c : Catalog) (o : String) (previous : List Node) (w : Work) : Work :=
  previous.foldl (fun w node => settle c o node w) w

theorem prune_eq (c : Catalog) (o : String) (previous : List Node) (w : Work) :
    prune c o previous w = settleAll c o previous (releaseStale o w) := rfl

theorem settleAll_cons (c : Catalog) (o : String) (node : Node) (rest : List Node) (w : Work) :
    settleAll c o (node :: rest) w = settleAll c o rest (settle c o node w) := rfl

/-- Nodes under their names, none of them twice. -/
structure Lists (g : Graph) (previous : List Node) : Prop where
  nodup : (previous.map Node.id).Nodup
  names : ∀ n ∈ previous, g.Names n.id n.identity

/-- Dealing with the first of several nodes leaves the others under their names. -/
theorem Settled.lists (hg : w.graph.WellFormed) {rest : List Node} (hl : Lists w.graph (node :: rest))
    (h : Settled o node w w') : Lists w'.graph rest := by
  have hnodup := hl.nodup
  rw [List.map_cons, List.nodup_cons] at hnodup
  refine ⟨hnodup.2, ?_⟩
  intro n hn
  refine (h.names_iff_of_ne hg (hl.names node List.mem_cons_self) ?_ _).2 (hl.names n (List.mem_cons_of_mem _ hn))
  intro hid
  exact hnodup.1 (hid ▸ List.mem_map_of_mem hn)

/-- What the end of a unit leaves alone. -/
structure Steady (w w' : Work) : Prop where
  sound : w'.Sound
  edges : w'.graph.edges = w.graph.edges
  touched : w'.touched = w.touched
  joins : ∀ e ∈ w.graph.edges, ∀ l, w'.graph.Joins e l ↔ w.graph.Joins e l
  definedIn : ∀ id path, w'.graph.DefinedIn id path ↔ w.graph.DefinedIn id path
  isBuilt : ∀ k key, w'.cache.isBuilt k key = true → w.cache.isBuilt k key = true

theorem Settled.steady (hw : w.Sound) (hnode : w.graph.Names node.id node.identity) (h : Settled o node w w') :
    Steady w w' :=
  ⟨h.sound hw hnode, h.edges_eq, h.touched_eq, fun _ he l => h.joins_iff hw.graph hnode he l,
    h.definedIn_iff hw.graph hnode, fun _ _ => h.isBuilt_of⟩

theorem Steady.trans {w₁ w₂ w₃ : Work} (h : Steady w₁ w₂) (h' : Steady w₂ w₃) : Steady w₁ w₃ := by
  refine ⟨h'.sound, h'.edges.trans h.edges, h'.touched.trans h.touched, ?_, ?_, ?_⟩
  · intro e he l
    rw [h'.joins e (by rw [h.edges]; exact he), h.joins e he]
  · intro id path
    rw [h'.definedIn, h.definedIn]
  · intro k key hbuilt
    exact h.isBuilt k key (h'.isBuilt k key hbuilt)

theorem steady_settleAll (hw : w.Sound) (c : Catalog) (o : String) {previous : List Node}
    (hl : Lists w.graph previous) : Steady w (settleAll c o previous w) := by
  induction previous generalizing w with
  | nil => exact ⟨hw, rfl, rfl, fun _ _ _ => Iff.rfl, fun _ _ => Iff.rfl, fun _ _ h => h⟩
  | cons node rest ih =>
      have hs := settled_settle hw.graph c o node
      have hfirst := hs.steady hw (hl.names node List.mem_cons_self)
      exact hfirst.trans (ih hfirst.sound (hs.lists hw.graph hl))

/-- Where a node comes from after the end of a unit, which leads from the graph `before` to the graph `after`. -/
inductive Remains (o : String) (previous : List Node) (touched : List Int) (before after : Graph) (m : Node) : Prop
  | kept (mem : m ∈ before.nodes) (own : m.id ∈ previous.map Node.id → m.id ∈ touched)
  | moved (d : NewNode) (path : String) (n : Node) (own : n ∈ previous) (id : n.id = m.id)
      (same : n.identity = m.identity) (untouched : m.id ∉ touched) (kind : (definingKind? m.kind).isSome = true)
      (other : path ≠ o) (defined : after.DefinedIn m.id path) (definition : d.DefinedIn path)
      (stored : m = d.stored m.id)
  | demoted (n : Node) (mem : n ∈ before.nodes) (own : m.id ∈ previous.map Node.id) (untouched : m.id ∉ touched)
      (undefined : (definingKind? m.kind).isSome = true → ∀ path, path ≠ o → ¬ after.DefinedIn m.id path)
      (referenced : after.isReferenced m.id = true) (eq : m = n.demoted)

/-- Dealing with a node does nothing to the others. -/
theorem Settled.mem_nodes_of_ne (hg : w.graph.WellFormed) (hnode : w.graph.Names node.id node.identity)
    (h : Settled o node w w') {m : Node} (hm : m ∈ w'.graph.nodes) (hne : m.id ≠ node.id) : m ∈ w.graph.nodes := by
  cases h with
  | kept _ same => rw [← same]; exact hm
  | moved d _ _ _ _ _ identity _ graph _ _ =>
      rw [graph, Graph.mem_upsertNode hg] at hm
      rcases hm with rfl | ⟨hm, _⟩
      · rw [← identity] at hnode
        rw [NewNode.stored_id, Graph.upsertNode_snd_of_names hg hnode] at hne
        exact absurd rfl hne
      · exact hm
  | demoted _ _ _ graph _ _ =>
      rw [graph, Graph.mem_demoteNode] at hm
      rcases hm with ⟨hm, _⟩ | ⟨n, _, hid, rfl⟩
      · exact hm
      · exact absurd hid hne
  | deleted _ _ graph _ _ =>
      rw [graph, Graph.mem_deleteNode] at hm
      exact hm.1

/-- The node itself, if it is still there. -/
theorem Settled.remains_self (hw : w.Sound) (hnode : w.graph.Names node.id node.identity) (h : Settled o node w w')
    {previous : List Node} (hmem : node ∈ previous) {m : Node} (hm : m ∈ w'.graph.nodes)
    (hid : m.id = node.id) : Remains o previous w.touched w.graph w'.graph m := by
  have hsteady := h.steady hw hnode
  have hname : w'.graph.Names m.id m.identity := Graph.names_of_mem hm
  cases h with
  | kept touched same =>
      rw [same] at hm
      exact .kept hm fun _ => by rw [hid]; exact touched
  | moved d path untouched kind other defined identity definition graph _ _ =>
      rw [graph, Graph.mem_upsertNode hw.graph] at hm
      rcases hm with heq | ⟨hm, hne⟩
      · have hi : m.identity = node.identity := by rw [heq, NewNode.stored_identity, identity]
        have hkind : m.kind = node.kind := congrArg Prod.fst hi
        have hdef := (hsteady.definedIn node.id path).2 defined
        refine .moved d path node hmem hid.symm hi.symm (by rw [hid]; exact untouched) (by rw [hkind]; exact kind) other
          (by rw [hid]; exact hdef) definition ?_
        rw [heq, NewNode.stored_id]
      · -- a node with this id has the identity of the node written in its place
        obtain ⟨n, hn, hnid, hni⟩ := hnode
        rw [hw.graph.node_eq_of_id hm hn (hid.trans hnid.symm), hni, identity] at hne
        exact absurd rfl hne
  | demoted untouched undefined referenced graph _ _ =>
      rw [graph, Graph.mem_demoteNode] at hm
      rcases hm with ⟨_, hne⟩ | ⟨n, hn, hnid, heq⟩
      · exact absurd hid hne
      · have hkind : m.kind = node.kind := by
          obtain ⟨n', hn', hnid', hni'⟩ := hnode
          have hi : m.identity = node.identity := by
            rw [heq, Node.demoted_identity, hw.graph.node_eq_of_id hn hn' (hnid.trans hnid'.symm), hni']
          exact congrArg Prod.fst hi
        refine .demoted n hn (by rw [hid]; exact List.mem_map_of_mem hmem) (by rw [hid]; exact untouched) ?_ ?_ heq
        · rw [hkind, hid]
          intro hk path hne hdef
          exact undefined hk path hne ((hsteady.definedIn _ _).1 hdef)
        · rw [hid, Graph.isReferenced, hsteady.edges]
          exact referenced
  | deleted _ _ graph _ _ =>
      rw [graph, Graph.mem_deleteNode] at hm
      exact absurd hid hm.2

theorem remains_settleAll (hw : w.Sound) (c : Catalog) (o : String) {previous : List Node}
    (hl : Lists w.graph previous) {m : Node} (hm : m ∈ (settleAll c o previous w).graph.nodes) :
    Remains o previous w.touched w.graph (settleAll c o previous w).graph m := by
  induction previous generalizing w with
  | nil => exact .kept hm (by simp)
  | cons node rest ih =>
      rw [settleAll_cons] at hm ⊢
      have hnode := hl.names node List.mem_cons_self
      have hs := settled_settle hw.graph c o node
      have hfirst := hs.steady hw hnode
      have hrest := steady_settleAll hfirst.sound c o (hs.lists hw.graph hl)
      have hnodup := hl.nodup
      rw [List.map_cons, List.nodup_cons] at hnodup
      cases ih hfirst.sound (hs.lists hw.graph hl) hm with
      | kept mem own =>
          rw [hfirst.touched] at own
          by_cases hid : m.id = node.id
          · cases hs.remains_self hw hnode (List.mem_cons_self (l := rest)) mem hid with
            | kept mem own => exact .kept mem own
            | moved d path n own id same untouched kind other defined definition stored =>
                exact .moved d path n own id same untouched kind other ((hrest.definedIn _ _).2 defined) definition
                  stored
            | demoted n mem own untouched undefined referenced eq =>
                refine .demoted n mem own untouched ?_ ?_ eq
                · intro hk path hne hdef
                  exact undefined hk path hne ((hrest.definedIn _ _).1 hdef)
                · rw [Graph.isReferenced, hrest.edges]
                  exact referenced
          · refine .kept (hs.mem_nodes_of_ne hw.graph hnode mem hid) ?_
            intro h
            rcases List.mem_cons.1 h with h | h
            · exact absurd h hid
            · exact own h
      | moved d path n own id same untouched kind other defined definition stored =>
          rw [hfirst.touched] at untouched
          exact .moved d path n (List.mem_cons_of_mem _ own) id same untouched kind other defined definition stored
      | demoted n mem own untouched undefined referenced eq =>
          rw [hfirst.touched] at untouched
          refine .demoted n (hs.mem_nodes_of_ne hw.graph hnode mem ?_) (List.mem_cons_of_mem _ own) untouched undefined
            referenced eq
          intro hid
          rw [eq, Node.demoted_id, hid] at own
          exact hnodup.1 own

/-- A node that was written again keeps its name. -/
theorem Settled.names_of_touched (h : Settled o node w w') (htouched : node.id ∈ w.touched) {i : Identity}
    (hi : w.graph.Names node.id i) : w'.graph.Names node.id i := by
  cases h with
  | kept _ same => rw [same]; exact hi
  | moved _ _ untouched _ _ _ _ _ _ _ _ => exact absurd htouched untouched
  | demoted untouched _ _ _ _ _ => exact absurd htouched untouched
  | deleted untouched _ _ _ _ => exact absurd htouched untouched

/-- Nodes of others, and those that were written again, keep their names. -/
theorem names_settleAll (hw : w.Sound) (c : Catalog) (o : String) {previous : List Node}
    (hl : Lists w.graph previous) {id : Int} {i : Identity} (hi : w.graph.Names id i)
    (hkeep : id ∈ previous.map Node.id → id ∈ w.touched) : (settleAll c o previous w).graph.Names id i := by
  induction previous generalizing w with
  | nil => exact hi
  | cons node rest ih =>
      have hnode := hl.names node List.mem_cons_self
      have hs := settled_settle hw.graph c o node
      have hfirst := hs.steady hw hnode
      rw [settleAll_cons]
      refine ih hfirst.sound (hs.lists hw.graph hl) ?_ ?_
      · by_cases hid : id = node.id
        · subst hid
          exact hs.names_of_touched (hkeep List.mem_cons_self) hi
        · exact (hs.names_iff_of_ne hw.graph hnode hid i).2 hi
      · intro hmem
        rw [hfirst.touched]
        exact hkeep (List.mem_cons_of_mem _ hmem)

end Projection

end CodeAtlas
