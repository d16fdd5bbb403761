import CodeAtlas.Proofs.Projection.Pruning
/-!
# A whole unit

The effect of a unit that says a list of statements, from its start to its end, in terms of the graph before and
the graph after: who holds which link (`holds_unit`), where the locations of an edge come from (`mem_edges_unit`), and
where a node comes from (`emerges_unit`). A unit whose writes carry out a list of statements always succeeds.
-/

namespace CodeAtlas.Projection

/-- The state in which a unit starts. -/
def start (o : String) (g : Graph) (cache : BuildCache) : Work :=
  { graph := g, cache := cache, stale := g.edgesHeldBy o }

/-- The state after a unit that says `statements`. -/
def unit (c : Catalog) (o : String) (g : Graph) (cache : BuildCache) (previous : List Node)
    (statements : List Statement) : Work :=
  prune c o previous (applyAll o (start o g cache) statements)

/-- A unit whose writes carry out statements succeeds, and leaves what the statements lead to. -/
theorem runUnit_eq {c : Catalog} {o : String} {g : Graph} {cache : BuildCache} {previous : List Node}
    {writes : Build Unit} {statements : List Statement}
    (h : writes.run.run (start o g cache) = (.ok (), applyAll o (start o g cache) statements)) :
    runUnit c g cache o previous writes =
      ⟨(unit c o g cache previous statements).graph, (unit c o g cache previous statements).cache,
        .ok (unit c o g cache previous statements).stats⟩ := by
  have hstart : ({ graph := g, cache := cache, stale := g.edgesHeldBy o } : Work) = start o g cache := rfl
  simp only [runUnit, hstart, h, unit]

section

variable {c : Catalog} {o : String} {g : Graph} {cache : BuildCache} {previous : List Node}
  {statements : List Statement}

/-- Part of the nodes of a graph stand under their names throughout the writes of a unit. -/
theorem lists_applyAll (hw : (start o g cache).Sound) (hp : previous.Sublist g.nodes) (statements : List Statement) :
    Lists (releaseStale o (applyAll o (start o g cache) statements)).graph previous := by
  refine ⟨hw.graph.nodeIds.sublist (hp.map _), ?_⟩
  intro n hn
  have hname := names_applyAll (o := o) hw (Graph.names_of_mem (hp.subset hn)) statements
  exact (Graph.names_releaseAll _ _ _ _ _).2 hname

theorem sound_releaseStale {w : Work} (hw : w.Sound) (o : String) : (releaseStale o w).Sound := by
  refine ⟨hw.graph.releaseAll w.stale o, hw.cache.mono ?_⟩
  intro id i h
  exact (Graph.names_releaseAll _ _ _ _ _).2 h

/-- The end of a unit, after its edges have been let go, leaves edges and links alone. -/
theorem steady_unit (hw : (start o g cache).Sound) (hp : previous.Sublist g.nodes) (c : Catalog)
    (statements : List Statement) :
    Steady (releaseStale o (applyAll o (start o g cache) statements)) (unit c o g cache previous statements) := by
  rw [unit, prune_eq]
  exact steady_settleAll (sound_releaseStale (sound_applyAll hw statements) o) c o (lists_applyAll hw hp statements)

theorem sound_unit (hw : (start o g cache).Sound) (hp : previous.Sublist g.nodes) (c : Catalog)
    (statements : List Statement) : (unit c o g cache previous statements).Sound :=
  (steady_unit hw hp c statements).sound

/-- What is built after a unit was built before or declared by it. -/
theorem isBuilt_unit (hw : (start o g cache).Sound) (hp : previous.Sublist g.nodes) {k : NodeKind} {key : String}
    (h : (unit c o g cache previous statements).cache.isBuilt k key = true) :
    cache.isBuilt k key = true ∨ Declares statements (k, key) :=
  (isBuilt_applyAll statements k key).1 ((steady_unit hw hp c statements).isBuilt k key h)

/-! ## Edges -/

theorem mem_edgesHeldBy (hg : g.WellFormed) {e : Edge} (he : e ∈ g.edges) :
    e.id ∈ g.edgesHeldBy o ↔ o ∈ e.holders := by
  simp only [Graph.edgesHeldBy, List.mem_map, List.mem_filter, List.contains_iff_mem]
  constructor
  · rintro ⟨f, ⟨hf, ho⟩, hid⟩
    rw [← hg.edge_eq_of_id hf he hid]
    exact ho
  · intro ho
    exact ⟨e, ⟨he, ho⟩, rfl⟩

/-- What is held after a unit: what others held before, and by the unit's origin what it relates. -/
theorem holds_unit (hw : (start o g cache).Sound) (hp : previous.Sublist g.nodes) (c : Catalog)
    (statements : List Statement) (l : Link) (x : String) :
    (unit c o g cache previous statements).graph.Holds l x ↔
      (x ≠ o ∧ g.Holds l x) ∨ (x = o ∧ Relates statements l) := by
  have hend := steady_unit hw hp c statements
  have hsound := sound_applyAll (o := o) hw statements
  have hreleased : (unit c o g cache previous statements).graph.Holds l x ↔
      (releaseStale o (applyAll o (start o g cache) statements)).graph.Holds l x := by
    simp only [Graph.Holds, hend.edges]
    exact exists_congr fun e => and_congr_right fun he => by rw [hend.joins e he]
  have hwrites := holds_applyAll (o := o) hw statements l x
  rw [hreleased]
  change ((applyAll o (start o g cache) statements).graph.releaseAll _ o).Holds l x ↔ _
  rw [Graph.holds_releaseAll hsound.graph]
  constructor
  · rintro ⟨e, he, hjoin, hx, hstale⟩
    by_cases hxo : x = o
    · subst hxo
      refine Or.inr ⟨rfl, ?_⟩
      by_contra hrel
      rcases mem_edges_applyAll hw statements he hjoin with ⟨metadata, h⟩ | ⟨he₀, _⟩
      · exact hrel ⟨_, metadata, h⟩
      · refine hstale ?_ rfl
        rw [mem_stale_applyAll hw statements he hjoin]
        exact ⟨(mem_edgesHeldBy hw.graph he₀).2 hx, hrel⟩
    · rcases hwrites.1 ⟨e, he, hjoin, hx⟩ with h | ⟨_, h⟩
      · exact Or.inl ⟨hxo, h⟩
      · exact absurd h hxo
  · rintro (⟨hxo, h⟩ | ⟨rfl, h⟩)
    · obtain ⟨e, he, hjoin, hx⟩ := hwrites.2 (Or.inl h)
      exact ⟨e, he, hjoin, hx, fun _ => hxo⟩
    · obtain ⟨e, he, hjoin, hx⟩ := hwrites.2 (Or.inr ⟨h, rfl⟩)
      refine ⟨e, he, hjoin, hx, ?_⟩
      rw [mem_stale_applyAll hw statements he hjoin]
      rintro ⟨_, hrel⟩
      exact absurd h hrel

/-- The locations of an edge after a unit are those of a statement about its link, or those from before if the unit
does not speak of the link. -/
theorem mem_edges_unit (hw : (start o g cache).Sound) (hp : previous.Sublist g.nodes) {e : Edge}
    (he : e ∈ (unit c o g cache previous statements).graph.edges) {l : Link}
    (hjoin : (unit c o g cache previous statements).graph.Joins e l) :
    (∃ metadata, Statement.relate l e.locations metadata ∈ statements) ∨
      (¬ Relates statements l ∧ ∃ e₀ ∈ g.edges, g.Joins e₀ l ∧ e₀.locations = e.locations) := by
  have hend := steady_unit hw hp c statements
  have hsound := sound_applyAll (o := o) hw statements
  rw [hend.edges] at he
  rw [hend.joins e he] at hjoin
  have hold : ∃ e₁ ∈ (applyAll o (start o g cache) statements).graph.edges,
      (applyAll o (start o g cache) statements).graph.Joins e₁ l ∧ e₁.locations = e.locations := by
    have hjoin₁ := (Graph.joins_releaseAll _ _ _ _ _).1 hjoin
    rcases (Graph.mem_releaseAll hsound.graph _ o e).1 he with ⟨he₁, _⟩ | ⟨e₁, he₁, _, hrel⟩
    · exact ⟨e, he₁, hjoin₁, rfl⟩
    · obtain ⟨_, hi, hloc, _⟩ := Edge.released_eq_some hrel
      exact ⟨e₁, he₁, (Graph.joins_congr hi l).1 hjoin₁, hloc.symm⟩
  obtain ⟨e₁, he₁, hjoin₁, hloc⟩ := hold
  rcases mem_edges_applyAll hw statements he₁ hjoin₁ with ⟨metadata, h⟩ | ⟨he₀, hrel⟩
  · rw [hloc] at h
    exact Or.inl ⟨metadata, h⟩
  · exact Or.inr ⟨hrel, e₁, he₀, (joins_applyAll hw statements he₀ l).1 hjoin₁, hloc⟩

/-- No unit leaves an edge that nobody holds. -/
theorem allHeld_unit (hw : (start o g cache).Sound) (hp : previous.Sublist g.nodes) (c : Catalog)
    (statements : List Statement) (hheld : g.AllHeld) :
    (unit c o g cache previous statements).graph.AllHeld := by
  intro e he
  have hsound := sound_applyAll (o := o) hw statements
  rw [(steady_unit hw hp c statements).edges] at he
  rcases (Graph.mem_releaseAll hsound.graph _ o e).1 he with ⟨he, _⟩ | ⟨_, _, _, hrel⟩
  · obtain ⟨l, hjoin⟩ := hsound.graph.exists_joins he
    rcases mem_edges_applyAll hw statements he hjoin with ⟨metadata, h⟩ | ⟨he₀, _⟩
    · obtain ⟨e', he', hjoin', ho⟩ := (holds_applyAll hw statements l o).2 (Or.inr ⟨⟨_, metadata, h⟩, rfl⟩)
      rw [hjoin'.edge_eq hsound.graph he' he hjoin] at ho
      exact ⟨o, ho⟩
    · exact hheld e he₀
  · exact Edge.exists_holder_of_released hrel

/-! ## Nodes -/

/-- Where a node comes from after a unit, which leads from the graph `g` to the graph `after`. -/
inductive Emerges (o : String) (g after : Graph) (previous : List Node) (statements : List Statement) (m : Node) : Prop
  | declared (n : NewNode) (mem : Statement.declare n ∈ statements) (stored : m = n.stored m.id)
  | kept (mem : m ∈ g.nodes) (undeclared : ¬ Declares statements m.identity) (other : m.id ∉ previous.map Node.id)
  | referred (new : ¬ g.Has m.identity) (undeclared : ¬ Declares statements m.identity)
      (stored : m = (Graph.placeholder m.kind m.key).stored m.id) (l : Link) (related : Relates statements l)
      (atEnd : m.identity = l.source ∨ m.identity = l.target)
  | moved (n : Node) (mem : n ∈ g.nodes) (same : n.identity = m.identity) (own : n.id ∈ previous.map Node.id)
      (undeclared : ¬ Declares statements m.identity) (kind : (definingKind? m.kind).isSome = true) (d : NewNode)
      (path : String) (elsewhere : path ≠ o) (defined : after.DefinedIn m.id path) (definition : d.DefinedIn path)
      (stored : m = d.stored m.id)
  | demoted (n : Node) (mem : n ∈ g.nodes) (own : n.id ∈ previous.map Node.id)
      (undeclared : ¬ Declares statements m.identity)
      (undefined : (definingKind? m.kind).isSome = true → ∀ path, path ≠ o → ¬ after.DefinedIn m.id path)
      (referenced : after.isReferenced m.id = true) (eq : m = n.demoted)

/-- A node that the statements declare is touched. -/
theorem touched_of_declares (hw : (start o g cache).Sound) {n : Node}
    (hn : n ∈ (applyAll o (start o g cache) statements).graph.nodes) :
    n.id ∈ (applyAll o (start o g cache) statements).touched ↔ Declares statements n.identity := by
  have hg := (sound_applyAll (o := o) hw statements).graph
  rw [mem_touched_applyAll hw]
  constructor
  · rintro (h | ⟨i, hi, hname⟩)
    · exact absurd h (by simp [start])
    · rw [(Graph.names_of_mem hn).identity_eq hg hname]
      exact hi
  · intro h
    exact Or.inr ⟨n.identity, h, Graph.names_of_mem hn⟩

/-- A node from before that is not declared was there with all its fields. -/
theorem mem_of_mem_applyAll (hw : (start o g cache).Sound) {n : Node}
    (hn : n ∈ (applyAll o (start o g cache) statements).graph.nodes) (hundeclared : ¬ Declares statements n.identity)
    (hhas : g.Has n.identity) : n ∈ g.nodes := by
  rcases mem_nodes_applyAll hw statements hn with ⟨d, hd, hstored⟩ | ⟨hn, _⟩ | ⟨hnew, _⟩
  · exact absurd ⟨d, hd, by rw [hstored, NewNode.stored_identity]⟩ hundeclared
  · exact hn
  · exact absurd hhas hnew

theorem emerges_unit (hw : (start o g cache).Sound) (hp : previous.Sublist g.nodes) {m : Node}
    (hm : m ∈ (unit c o g cache previous statements).graph.nodes) :
    Emerges o g (unit c o g cache previous statements).graph previous statements m := by
  have hsound := sound_applyAll (o := o) hw statements
  have hnames := (lists_applyAll hw hp statements).names
  -- a node of the unit's own has the identity that its id has after the writes
  have hown : ∀ n ∈ (applyAll o (start o g cache) statements).graph.nodes, n.id ∈ previous.map Node.id →
      ∃ n₀ ∈ g.nodes, n₀.id = n.id ∧ n₀.identity = n.identity := by
    intro n hn h
    obtain ⟨n₀, hn₀, hid⟩ := List.mem_map.1 h
    have hname := (Graph.names_releaseAll _ _ _ _ _).1 (hnames n₀ hn₀)
    rw [hid] at hname
    exact ⟨n₀, hp.subset hn₀, hid, hname.identity_eq hsound.graph (Graph.names_of_mem hn)⟩
  have hrel := sound_releaseStale hsound o
  have hremains := remains_settleAll hrel c o (lists_applyAll hw hp statements) (m := m) (by
    rw [← prune_eq]
    exact hm)
  cases hremains with
  | kept mem own =>
      change m ∈ ((applyAll o (start o g cache) statements).graph.releaseAll _ o).nodes at mem
      rw [Graph.releaseAll_nodes] at mem
      rcases mem_nodes_applyAll hw statements mem with
        ⟨n, hn, hstored⟩ | ⟨hold, hno⟩ | ⟨hnew, hno, hstored, l, hl, hend⟩
      · exact .declared n hn hstored
      · refine .kept hold hno ?_
        intro h
        exact hno ((touched_of_declares hw mem).1 (own h))
      · exact .referred hnew hno hstored l hl hend
  | moved d path n own id same untouched kind other defined definition stored =>
      obtain ⟨n₁, hn₁, hid₁, hi₁⟩ := (Graph.names_releaseAll _ _ _ _ _).1 (hnames n own)
      refine .moved n (hp.subset own) same (List.mem_map_of_mem own) ?_ kind d path other defined definition stored
      rw [← same, ← hi₁, ← touched_of_declares hw hn₁, hid₁, id]
      exact untouched
  | demoted n mem own untouched undefined referenced eq =>
      change n ∈ ((applyAll o (start o g cache) statements).graph.releaseAll _ o).nodes at mem
      rw [Graph.releaseAll_nodes] at mem
      have hid : m.id = n.id := by rw [eq, Node.demoted_id]
      have hi : m.identity = n.identity := by rw [eq, Node.demoted_identity]
      rw [hid] at own
      have hno : ¬ Declares statements n.identity := by
        rw [← touched_of_declares hw mem, ← hid]
        exact untouched
      obtain ⟨n₀, hn₀, _, hi₀⟩ := hown n mem own
      have hold := mem_of_mem_applyAll hw mem hno ⟨n₀.id, n₀, hn₀, rfl, hi₀⟩
      exact .demoted n hold own (by rw [hi]; exact hno) undefined referenced eq

/-- The nodes of others stay. -/
theorem names_unit (hw : (start o g cache).Sound) (hp : previous.Sublist g.nodes) (c : Catalog)
    (statements : List Statement) {id : Int} {i : Identity} (hi : g.Names id i)
    (hother : id ∉ previous.map Node.id) : (unit c o g cache previous statements).graph.Names id i := by
  have hsound := sound_releaseStale (sound_applyAll (o := o) hw statements) o
  have hname := names_applyAll (o := o) hw hi statements
  rw [unit, prune_eq]
  exact names_settleAll hsound c o (lists_applyAll hw hp statements) ((Graph.names_releaseAll _ _ _ _ _).2 hname)
    fun h => absurd h hother

/-- What a unit declares is there. -/
theorem has_unit_of_declares (hw : (start o g cache).Sound) (hp : previous.Sublist g.nodes) (c : Catalog)
    {statements : List Statement} {i : Identity} (hi : Declares statements i) :
    (unit c o g cache previous statements).graph.Has i := by
  have hsound := sound_releaseStale (sound_applyAll (o := o) hw statements) o
  have hhas : (applyAll o (start o g cache) statements).graph.Has i := by
    obtain ⟨n, hn, rfl⟩ := hi
    exact (has_applyAll hw statements _).2 (Or.inr ⟨_, hn, rfl⟩)
  obtain ⟨id, hname⟩ := hhas
  refine ⟨id, ?_⟩
  rw [unit, prune_eq]
  refine names_settleAll hsound c o (lists_applyAll hw hp statements) ((Graph.names_releaseAll _ _ _ _ _).2 hname) ?_
  intro _
  exact (mem_touched_applyAll hw statements id).2 (Or.inr ⟨i, hi, hname⟩)

end

end CodeAtlas.Projection
