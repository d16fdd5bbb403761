import CodeAtlas.Projection.Unit
import CodeAtlas.Proofs.Graph.Holding
import CodeAtlas.Proofs.Projection.Cache
/-!
# What a unit says

The writes of a unit come down to a list of statements, in which nodes stand by their identity and not by their id: a
`Statement` declares a node, or relates two nodes that become placeholders if they are not there. `applyAll` carries
out a list of them. Its effect is stated link by link: the unit's origin holds what the statements relate besides
what was held before, an edge that is related again is no longer stale, and every node is one declared by the
statements, one from before, or a placeholder.
-/

namespace CodeAtlas

namespace Graph

/-- Writes the edge of a link, with placeholders for ends that are not there, and gives its id. -/
def relate (g : Graph) (origin : String) (l : Link) (locations : List String) (metadata : Json) : Graph × Int :=
  let (g₁, a) := g.ensureNode l.source.1 l.source.2
  let (g₂, b) := g₁.ensureNode l.target.1 l.target.2
  g₂.putEdge {
    kind := l.kind, source := a, target := b, locations := locations, metadata := metadata, origin := some origin }

/-- The graph with both ends of a link, before its edge is written. -/
def withEnds (g : Graph) (l : Link) : Graph :=
  ((g.ensureNode l.source.1 l.source.2).1.ensureNode l.target.1 l.target.2).1

/-- The id of the source of a link, once both ends are there. -/
def sourceId (g : Graph) (l : Link) : Int := (g.ensureNode l.source.1 l.source.2).2

/-- The id of the target of a link, once both ends are there. -/
def targetId (g : Graph) (l : Link) : Int :=
  ((g.ensureNode l.source.1 l.source.2).1.ensureNode l.target.1 l.target.2).2

/-- The edge that relating two nodes writes. -/
def linkEdge (g : Graph) (origin : String) (l : Link) (locations : List String) (metadata : Json) : NewEdge :=
  { kind := l.kind, source := g.sourceId l, target := g.targetId l, locations := locations, metadata := metadata
    origin := some origin }

variable {g : Graph} {origin : String} {l : Link} {locations : List String} {metadata : Json}

theorem relate_eq : g.relate origin l locations metadata =
    (g.withEnds l).putEdge (g.linkEdge origin l locations metadata) := rfl

@[simp] theorem withEnds_edges : (g.withEnds l).edges = g.edges := by
  simp [withEnds]

theorem WellFormed.withEnds (hg : g.WellFormed) : (g.withEnds l).WellFormed :=
  (hg.ensureNode _ _).ensureNode _ _

theorem names_sourceId (hg : g.WellFormed) : (g.withEnds l).Names (g.sourceId l) l.source :=
  (names_ensureNode_self hg l.source).ensureNode (hg.ensureNode _ _) l.target

theorem names_targetId (hg : g.WellFormed) : (g.withEnds l).Names (g.targetId l) l.target :=
  names_ensureNode_self (hg.ensureNode _ _) l.target

theorem Names.withEnds (hg : g.WellFormed) {id : Int} {i : Identity} (h : g.Names id i) :
    (g.withEnds l).Names id i :=
  (h.ensureNode hg l.source).ensureNode (hg.ensureNode _ _) l.target

theorem has_withEnds (hg : g.WellFormed) (i : Identity) :
    (g.withEnds l).Has i ↔ g.Has i ∨ i = l.source ∨ i = l.target := by
  constructor
  · rintro ⟨id, h⟩
    rcases (names_ensureNode (hg.ensureNode _ _) l.target id i).1 h with h | ⟨_, rfl⟩
    · rcases (names_ensureNode hg l.source id i).1 h with h | ⟨_, rfl⟩
      · exact Or.inl ⟨id, h⟩
      · exact Or.inr (Or.inl rfl)
    · exact Or.inr (Or.inr rfl)
  · rintro (⟨id, h⟩ | rfl | rfl)
    · exact ⟨id, h.withEnds hg⟩
    · exact ⟨_, names_sourceId hg⟩
    · exact ⟨_, names_targetId hg⟩

/-- An end that was not there becomes a placeholder. -/
theorem mem_withEnds (hg : g.WellFormed) {m : Node} (h : m ∈ (g.withEnds l).nodes) :
    m ∈ g.nodes ∨
      (¬ g.Has m.identity ∧ (m.identity = l.source ∨ m.identity = l.target) ∧
        m = (placeholder m.kind m.key).stored m.id) := by
  rcases (mem_ensureNode (hg.ensureNode _ _) l.target m).1 h with h | ⟨hnew, rfl⟩
  · rcases (mem_ensureNode hg l.source m).1 h with h | ⟨hnew, rfl⟩
    · exact Or.inl h
    · exact Or.inr ⟨hnew, Or.inl rfl, rfl⟩
  · refine Or.inr ⟨?_, Or.inr rfl, rfl⟩
    rintro ⟨id, hid⟩
    exact hnew ⟨id, hid.ensureNode hg l.source⟩

@[simp] theorem relate_nodes : (g.relate origin l locations metadata).1.nodes = (g.withEnds l).nodes := by
  rw [relate_eq, putEdge_nodes]

@[simp] theorem names_relate (id : Int) (i : Identity) :
    (g.relate origin l locations metadata).1.Names id i ↔ (g.withEnds l).Names id i := by
  simp [Names]

theorem WellFormed.relate (hg : g.WellFormed) : (g.relate origin l locations metadata).1.WellFormed := by
  rw [relate_eq]
  exact hg.withEnds.putEdge (names_sourceId hg) (names_targetId hg)

/-- Joining is not disturbed by new nodes. -/
theorem joins_withEnds (hg : g.WellFormed) {e : Edge} (he : e ∈ g.edges) (k : Link) :
    (g.withEnds l).Joins e k ↔ g.Joins e k := by
  have hmono : ∀ k, g.Joins e k → (g.withEnds l).Joins e k := by
    rintro k ⟨hk, hs, ht⟩
    exact ⟨hk, hs.withEnds hg, ht.withEnds hg⟩
  constructor
  · intro h
    obtain ⟨k', hk'⟩ := hg.exists_joins he
    rw [h.link_eq hg.withEnds (hmono k' hk')]
    exact hk'
  · exact hmono k

/-- Relating two nodes makes the origin a holder of their link, and changes no other holding. -/
theorem holds_relate (hg : g.WellFormed) (k : Link) (x : String) :
    (g.relate origin l locations metadata).1.Holds k x ↔ g.Holds k x ∨ (k = l ∧ x = origin) := by
  rw [relate_eq, holds_putEdge hg.withEnds (names_sourceId hg) (names_targetId hg) rfl]
  refine or_congr ?_ Iff.rfl
  simp only [Holds, withEnds_edges]
  constructor
  · rintro ⟨e, he, hjoin, hx⟩
    exact ⟨e, he, (joins_withEnds hg he k).1 hjoin, hx⟩
  · rintro ⟨e, he, hjoin, hx⟩
    exact ⟨e, he, (joins_withEnds hg he k).2 hjoin, hx⟩

/-- The edge that was written, under the id that was given. -/
theorem exists_relate_edge (hg : g.WellFormed) (origin : String) (l : Link) (locations : List String)
    (metadata : Json) :
    ∃ e ∈ (g.relate origin l locations metadata).1.edges,
      e.id = (g.relate origin l locations metadata).2 ∧ (g.relate origin l locations metadata).1.Joins e l ∧
        e.locations = locations := by
  rw [relate_eq]
  refine ⟨_, (mem_putEdge hg.withEnds _ _).2 (Or.inl rfl), rfl, ?_, rfl⟩
  rw [joins_putEdge]
  exact ⟨rfl, names_sourceId hg, names_targetId hg⟩

/-- Every edge is the one written, or one from before that belongs to another link. -/
theorem mem_relate (hg : g.WellFormed) {e : Edge} (he : e ∈ (g.relate origin l locations metadata).1.edges) :
    ((g.relate origin l locations metadata).1.Joins e l ∧ e.locations = locations) ∨
      (e ∈ g.edges ∧ ¬ (g.relate origin l locations metadata).1.Joins e l) := by
  rw [relate_eq] at he ⊢
  have hjoin : (g.withEnds l).Joins ((g.linkEdge origin l locations metadata).stored 0 []) l :=
    ⟨rfl, names_sourceId hg, names_targetId hg⟩
  rcases (mem_putEdge hg.withEnds _ _).1 he with rfl | ⟨he, hne⟩
  · left
    rw [joins_putEdge]
    exact ⟨hjoin, rfl⟩
  · right
    rw [withEnds_edges] at he
    refine ⟨he, ?_⟩
    rw [joins_putEdge]
    intro h
    apply hne
    simp only [Edge.identity, NewEdge.identity, Prod.mk.injEq]
    exact ⟨h.1, h.2.1.id_eq hg.withEnds hjoin.2.1, h.2.2.id_eq hg.withEnds hjoin.2.2⟩

/-- An edge from before is still there, under its id and link. -/
theorem exists_mem_relate (hg : g.WellFormed) {e : Edge} (he : e ∈ g.edges) {k : Link} (hjoin : g.Joins e k) :
    ∃ e' ∈ (g.relate origin l locations metadata).1.edges,
      e'.id = e.id ∧ (g.relate origin l locations metadata).1.Joins e' k := by
  rw [relate_eq]
  have hjoin' := (joins_withEnds (l := l) hg he k).2 hjoin
  by_cases hi : e.identity = (g.linkEdge origin l locations metadata).identity
  · refine ⟨_, (mem_putEdge hg.withEnds _ _).2 (Or.inl rfl), ?_, ?_⟩
    · have he' : e ∈ (g.withEnds l).edges := by rw [withEnds_edges]; exact he
      exact putEdge_snd_of_mem hg.withEnds he' hi
    · rw [joins_putEdge]
      exact (joins_congr hi k).1 hjoin'
  · refine ⟨e, (mem_putEdge hg.withEnds _ _).2 (Or.inr ⟨by rw [withEnds_edges]; exact he, hi⟩), rfl, ?_⟩
    rw [joins_putEdge]
    exact hjoin'

end Graph

/-- The cache is right about the graph, which is well-formed. -/
structure Work.Sound (w : Work) : Prop where
  graph : w.graph.WellFormed
  cache : w.cache.Valid w.graph

namespace Projection

/-- What a unit says: that there is a node, or that two nodes are related. -/
inductive Statement where
  | declare (n : NewNode)
  | relate (l : Link) (locations : List String) (metadata : Json)

namespace Statement

/-- A statement speaks of an identity. -/
def Mentions : Statement → Identity → Prop
  | .declare n, i => i = n.identity
  | .relate l _ _, i => i = l.source ∨ i = l.target

/-- Carries out a statement. -/
def apply (origin : String) (w : Work) : Statement → Work
  | .declare n =>
    let (graph, id) := w.graph.upsertNode n
    let fresh := !w.touched.contains id
    { w with
      graph := graph
      cache := w.cache.record n.kind n.key id
      touched := if fresh then w.touched ++ [id] else w.touched
      stats := if fresh then { w.stats with nodes := w.stats.nodes + 1 } else w.stats }
  | .relate l locations metadata =>
    let (graph, id) := w.graph.relate origin l locations metadata
    { w with
      graph := graph
      stale := w.stale.filter (· ≠ id)
      stats := { w.stats with edges := w.stats.edges + 1 } }

end Statement

/-- The statements relate the ends of a link. -/
def Relates (statements : List Statement) (l : Link) : Prop :=
  ∃ locations metadata, Statement.relate l locations metadata ∈ statements

/-- The statements declare a node with an identity. -/
def Declares (statements : List Statement) (i : Identity) : Prop :=
  ∃ n, Statement.declare n ∈ statements ∧ n.identity = i

/-- Carries out statements in turn. -/
def applyAll (origin : String) (w : Work) (statements : List Statement) : Work :=
  statements.foldl (Statement.apply origin) w

variable {o : String} {w : Work}

@[simp] theorem applyAll_nil : applyAll o w [] = w := rfl

theorem applyAll_cons (s : Statement) (rest : List Statement) :
    applyAll o w (s :: rest) = applyAll o (s.apply o w) rest := rfl

theorem applyAll_append (first second : List Statement) :
    applyAll o w (first ++ second) = applyAll o (applyAll o w first) second :=
  List.foldl_append

/-- The graph and the cache after a declaration. -/
theorem apply_declare_graph (n : NewNode) :
    (Statement.apply o w (.declare n)).graph = (w.graph.upsertNode n).1 := rfl

theorem apply_relate_graph (l : Link) (locations : List String) (metadata : Json) :
    (Statement.apply o w (.relate l locations metadata)).graph =
      (w.graph.relate o l locations metadata).1 := rfl

theorem names_apply (hw : w.Sound) {id : Int} {i : Identity} (h : w.graph.Names id i) (s : Statement) :
    (s.apply o w).graph.Names id i := by
  cases s with
  | declare n => exact h.upsertNode hw.graph n
  | relate l locations metadata =>
      rw [apply_relate_graph, Graph.names_relate]
      exact h.withEnds hw.graph

theorem sound_apply (hw : w.Sound) (s : Statement) : (s.apply o w).Sound := by
  cases s with
  | declare n =>
      have hmono : ∀ id i, w.graph.Names id i → (w.graph.upsertNode n).1.Names id i :=
        fun id i h => h.upsertNode hw.graph n
      exact ⟨hw.graph.upsertNode n, (hw.cache.mono hmono).record (Graph.names_upsertNode_self hw.graph n)⟩
  | relate l locations metadata =>
      refine ⟨hw.graph.relate, hw.cache.mono ?_⟩
      intro id i h
      exact names_apply hw h (.relate l locations metadata)

theorem sound_applyAll (hw : w.Sound) (statements : List Statement) :
    (applyAll o w statements).Sound := by
  induction statements generalizing w with
  | nil => exact hw
  | cons s rest ih => exact ih (sound_apply hw s)

/-- Names are kept. -/
theorem names_applyAll (hw : w.Sound) {id : Int} {i : Identity} (h : w.graph.Names id i)
    (statements : List Statement) : (applyAll o w statements).graph.Names id i := by
  induction statements generalizing w with
  | nil => exact h
  | cons s rest ih => exact ih (sound_apply hw s) (names_apply hw h s)

theorem has_apply (hw : w.Sound) (s : Statement) (i : Identity) :
    (s.apply o w).graph.Has i ↔ w.graph.Has i ∨ s.Mentions i := by
  cases s with
  | declare n =>
      simp only [apply_declare_graph, Graph.Has, Graph.names_upsertNode hw.graph, Statement.Mentions]
      constructor
      · rintro ⟨id, h | ⟨_, h⟩⟩
        · exact Or.inl ⟨id, h⟩
        · exact Or.inr h
      · rintro (⟨id, h⟩ | h)
        · exact ⟨id, Or.inl h⟩
        · exact ⟨_, Or.inr ⟨rfl, h⟩⟩
  | relate l locations metadata =>
      have hnames : (Statement.apply o w (.relate l locations metadata)).graph.Has i ↔
          (w.graph.withEnds l).Has i := by
        simp only [apply_relate_graph, Graph.Has, Graph.names_relate]
      rw [hnames, Graph.has_withEnds hw.graph]
      rfl

/-- The nodes that are there: those from before and those mentioned. -/
theorem has_applyAll (hw : w.Sound) (statements : List Statement) (i : Identity) :
    (applyAll o w statements).graph.Has i ↔ w.graph.Has i ∨ ∃ s ∈ statements, s.Mentions i := by
  induction statements generalizing w with
  | nil => simp
  | cons s rest ih =>
      rw [applyAll_cons, ih (sound_apply hw s), has_apply hw]
      simp [or_assoc]

theorem isBuilt_apply (s : Statement) (k : NodeKind) (key : String) :
    (s.apply o w).cache.isBuilt k key = true ↔
      w.cache.isBuilt k key = true ∨ ∃ n, s = .declare n ∧ n.identity = (k, key) := by
  cases s with
  | declare n =>
      change (w.cache.record n.kind n.key _).isBuilt k key = true ↔ _
      rw [BuildCache.isBuilt_record]
      simp only [Bool.or_eq_true, decide_eq_true_eq, Statement.declare.injEq, exists_eq_left', NewNode.identity]
      rw [or_comm]
      exact or_congr_right eq_comm
  | relate l locations metadata =>
      change w.cache.isBuilt k key = true ↔ _
      simp

/-- The nodes in the cache: those from before and those declared. -/
theorem isBuilt_applyAll (statements : List Statement) (k : NodeKind) (key : String) :
    (applyAll o w statements).cache.isBuilt k key = true ↔
      w.cache.isBuilt k key = true ∨ Declares statements (k, key) := by
  induction statements generalizing w with
  | nil => simp [Declares]
  | cons s rest ih =>
      rw [applyAll_cons, ih, isBuilt_apply, or_assoc]
      refine or_congr_right ?_
      simp only [Declares, List.mem_cons]
      constructor
      · rintro (⟨n, rfl, hn⟩ | ⟨n, hmem, hn⟩)
        · exact ⟨n, Or.inl rfl, hn⟩
        · exact ⟨n, Or.inr hmem, hn⟩
      · rintro ⟨n, h | hmem, hn⟩
        · exact Or.inl ⟨n, h.symm, hn⟩
        · exact Or.inr ⟨n, hmem, hn⟩

/-! ## Edges -/

theorem relates_cons {s : Statement} {rest : List Statement} {l : Link} :
    Relates (s :: rest) l ↔ (∃ locations metadata, s = .relate l locations metadata) ∨ Relates rest l := by
  simp only [Relates, List.mem_cons]
  constructor
  · rintro ⟨locations, metadata, h | h⟩
    · exact Or.inl ⟨locations, metadata, h.symm⟩
    · exact Or.inr ⟨locations, metadata, h⟩
  · rintro (⟨locations, metadata, h⟩ | ⟨locations, metadata, h⟩)
    · exact ⟨locations, metadata, Or.inl h.symm⟩
    · exact ⟨locations, metadata, Or.inr h⟩

theorem holds_apply (hw : w.Sound) (s : Statement) (l : Link) (x : String) :
    (s.apply o w).graph.Holds l x ↔
      w.graph.Holds l x ∨ ((∃ locations metadata, s = .relate l locations metadata) ∧ x = o) := by
  cases s with
  | declare n =>
      have hjoins : ∀ e ∈ w.graph.edges, ((w.graph.upsertNode n).1.Joins e l ↔ w.graph.Joins e l) := by
        have hmono : ∀ e k, w.graph.Joins e k → (w.graph.upsertNode n).1.Joins e k := by
          rintro e k ⟨hk, hs, ht⟩
          exact ⟨hk, hs.upsertNode hw.graph n, ht.upsertNode hw.graph n⟩
        intro e he
        constructor
        · intro h
          obtain ⟨k, hk⟩ := hw.graph.exists_joins he
          rw [h.link_eq (hw.graph.upsertNode n) (hmono e k hk)]
          exact hk
        · exact hmono e l
      simp only [apply_declare_graph, Graph.Holds, Graph.upsertNode_edges, reduceCtorEq, exists_false, false_and,
        or_false]
      constructor
      · rintro ⟨e, he, hjoin, hx⟩
        exact ⟨e, he, (hjoins e he).1 hjoin, hx⟩
      · rintro ⟨e, he, hjoin, hx⟩
        exact ⟨e, he, (hjoins e he).2 hjoin, hx⟩
  | relate k locations metadata =>
      rw [apply_relate_graph, Graph.holds_relate hw.graph]
      refine or_congr_right (and_congr_left fun _ => ?_)
      simp only [Statement.relate.injEq]
      constructor
      · rintro rfl
        exact ⟨locations, metadata, rfl, rfl, rfl⟩
      · rintro ⟨_, _, h, _⟩
        exact h.symm

/-- What is held after the statements: what was held, and by the origin what they relate. -/
theorem holds_applyAll (hw : w.Sound) (statements : List Statement) (l : Link) (x : String) :
    (applyAll o w statements).graph.Holds l x ↔
      w.graph.Holds l x ∨ (Relates statements l ∧ x = o) := by
  induction statements generalizing w with
  | nil => simp [Relates]
  | cons s rest ih =>
      rw [applyAll_cons, ih (sound_apply hw s), holds_apply hw, relates_cons, or_assoc, or_and_right]

/-- An edge is kept under its id and its link. -/
theorem exists_mem_apply (hw : w.Sound) (s : Statement) {e : Edge} (he : e ∈ w.graph.edges) {l : Link}
    (hjoin : w.graph.Joins e l) :
    ∃ e' ∈ (s.apply o w).graph.edges, e'.id = e.id ∧ (s.apply o w).graph.Joins e' l := by
  cases s with
  | declare n =>
      refine ⟨e, ?_, rfl, hjoin.1, names_apply hw hjoin.2.1 _, names_apply hw hjoin.2.2 _⟩
      rw [apply_declare_graph, Graph.upsertNode_edges]
      exact he
  | relate k locations metadata => exact Graph.exists_mem_relate hw.graph he hjoin

theorem exists_mem_applyAll (hw : w.Sound) (statements : List Statement) {e : Edge} (he : e ∈ w.graph.edges)
    {l : Link} (hjoin : w.graph.Joins e l) :
    ∃ e' ∈ (applyAll o w statements).graph.edges,
      e'.id = e.id ∧ (applyAll o w statements).graph.Joins e' l := by
  induction statements generalizing w e with
  | nil => exact ⟨e, he, rfl, hjoin⟩
  | cons s rest ih =>
      obtain ⟨e₁, he₁, hid₁, hjoin₁⟩ := exists_mem_apply (o := o) hw s he hjoin
      obtain ⟨e₂, he₂, hid₂, hjoin₂⟩ := ih (sound_apply hw s) he₁ hjoin₁
      exact ⟨e₂, he₂, hid₂.trans hid₁, hjoin₂⟩

/-- An edge is stale after the statements if it was before and they do not relate its ends. -/
theorem mem_stale_applyAll (hw : w.Sound) (statements : List Statement) {e : Edge}
    (he : e ∈ (applyAll o w statements).graph.edges) {l : Link}
    (hjoin : (applyAll o w statements).graph.Joins e l) :
    e.id ∈ (applyAll o w statements).stale ↔ e.id ∈ w.stale ∧ ¬ Relates statements l := by
  induction statements generalizing w with
  | nil => simp [Relates]
  | cons s rest ih =>
      have hs := sound_apply (o := o) hw s
      rw [applyAll_cons] at he hjoin ⊢
      rw [ih hs he hjoin, relates_cons, not_or]
      cases s with
      | declare n =>
          simp only [reduceCtorEq, exists_false, not_false_eq_true, true_and]
          rfl
      | relate k locations metadata =>
          -- the edge just written keeps its id to the end, where ids and links determine each other
          obtain ⟨e₀, he₀, hid₀, hjoin₀, _⟩ :=
            Graph.exists_relate_edge hw.graph o k locations metadata
          obtain ⟨e₁, he₁, hid₁, hjoin₁⟩ := exists_mem_applyAll (o := o) hs rest he₀ hjoin₀
          have hg := (sound_applyAll (o := o) hs rest).graph
          have hsame : e.id = (w.graph.relate o k locations metadata).2 ↔ k = l := by
            rw [← hid₀, ← hid₁]
            constructor
            · intro h
              have heq := hg.edge_eq_of_id he he₁ h
              rw [heq] at hjoin
              exact hjoin₁.link_eq hg hjoin
            · rintro rfl
              rw [hjoin.edge_eq hg he he₁ hjoin₁]
          have hstale : (Statement.apply o w (.relate k locations metadata)).stale =
              w.stale.filter (· ≠ (w.graph.relate o k locations metadata).2) := rfl
          simp only [hstale, List.mem_filter, decide_eq_true_eq, ne_eq, hsame, Statement.relate.injEq]
          constructor
          · rintro ⟨⟨hmem, hne⟩, hrest⟩
            exact ⟨hmem, fun ⟨_, _, h, _⟩ => hne h, hrest⟩
          · rintro ⟨hmem, hne, hrest⟩
            exact ⟨⟨hmem, fun h => hne ⟨locations, metadata, h, rfl, rfl⟩⟩, hrest⟩

/-- The link of an edge from before stays the same. -/
theorem joins_applyAll (hw : w.Sound) (statements : List Statement) {e : Edge} (he : e ∈ w.graph.edges) (l : Link) :
    (applyAll o w statements).graph.Joins e l ↔ w.graph.Joins e l := by
  have hmono : ∀ k, w.graph.Joins e k → (applyAll o w statements).graph.Joins e k := by
    rintro k ⟨hk, hs, ht⟩
    exact ⟨hk, names_applyAll hw hs statements, names_applyAll hw ht statements⟩
  constructor
  · intro h
    obtain ⟨k, hk⟩ := hw.graph.exists_joins he
    rw [h.link_eq (sound_applyAll hw statements).graph (hmono k hk)]
    exact hk
  · exact hmono l

/-- Every edge is one that the statements relate, with their locations, or one from before that they do not relate. -/
theorem mem_edges_applyAll (hw : w.Sound) (statements : List Statement) {e : Edge}
    (he : e ∈ (applyAll o w statements).graph.edges) {l : Link}
    (hjoin : (applyAll o w statements).graph.Joins e l) :
    (∃ metadata, Statement.relate l e.locations metadata ∈ statements) ∨
      (e ∈ w.graph.edges ∧ ¬ Relates statements l) := by
  induction statements generalizing w with
  | nil => exact Or.inr ⟨he, by simp [Relates]⟩
  | cons s rest ih =>
      have hs := sound_apply (o := o) hw s
      rcases ih hs he hjoin with ⟨metadata, h⟩ | ⟨he₁, hrest⟩
      · exact Or.inl ⟨metadata, List.mem_cons_of_mem s h⟩
      · rw [applyAll_cons] at hjoin
        have hjoin₁ := (joins_applyAll hs rest he₁ l).1 hjoin
        cases s with
        | declare n =>
            rw [apply_declare_graph, Graph.upsertNode_edges] at he₁
            refine Or.inr ⟨he₁, ?_⟩
            rw [relates_cons]
            simpa using hrest
        | relate k locations metadata =>
            rcases Graph.mem_relate hw.graph he₁ with ⟨hk, hlocations⟩ | ⟨he₀, hk⟩
            · have hlk := hjoin₁.link_eq hs.graph hk
              subst hlk
              subst hlocations
              exact Or.inl ⟨metadata, List.mem_cons_self⟩
            · refine Or.inr ⟨he₀, ?_⟩
              rw [relates_cons]
              rintro (⟨_, _, h⟩ | h)
              · rw [Statement.relate.injEq] at h
                obtain ⟨rfl, _, _⟩ := h
                exact hk hjoin₁
              · exact hrest h

/-! ## Nodes -/

theorem declares_cons {s : Statement} {rest : List Statement} {i : Identity} :
    Declares (s :: rest) i ↔ (∃ n, s = .declare n ∧ n.identity = i) ∨ Declares rest i := by
  simp only [Declares, List.mem_cons]
  constructor
  · rintro ⟨n, h | h, hn⟩
    · exact Or.inl ⟨n, h.symm, hn⟩
    · exact Or.inr ⟨n, h, hn⟩
  · rintro (⟨n, h, hn⟩ | ⟨n, h, hn⟩)
    · exact ⟨n, Or.inl h.symm, hn⟩
    · exact ⟨n, Or.inr h, hn⟩

/-- Every node is as the statements declare it, as it was before and not declared, or a new placeholder for an end of
a link. -/
theorem mem_nodes_applyAll (hw : w.Sound) (statements : List Statement) {m : Node}
    (hm : m ∈ (applyAll o w statements).graph.nodes) :
    (∃ n, Statement.declare n ∈ statements ∧ m = n.stored m.id) ∨
      (m ∈ w.graph.nodes ∧ ¬ Declares statements m.identity) ∨
      (¬ w.graph.Has m.identity ∧ ¬ Declares statements m.identity ∧
        m = (Graph.placeholder m.kind m.key).stored m.id ∧
        ∃ l, Relates statements l ∧ (m.identity = l.source ∨ m.identity = l.target)) := by
  induction statements generalizing w with
  | nil => exact Or.inr (Or.inl ⟨hm, by simp [Declares]⟩)
  | cons s rest ih =>
      have hs := sound_apply (o := o) hw s
      rcases ih hs hm with ⟨n, h, hmn⟩ | ⟨hm₁, hrest⟩ | ⟨hnew, hrest, hmp, l, hl, hend⟩
      · exact Or.inl ⟨n, List.mem_cons_of_mem s h, hmn⟩
      · cases s with
        | declare n =>
            rcases (Graph.mem_upsertNode hw.graph n m).1 hm₁ with hmn | ⟨hm₀, hne⟩
            · refine Or.inl ⟨n, List.mem_cons_self, ?_⟩
              rw [hmn, NewNode.stored_id]
            · refine Or.inr (Or.inl ⟨hm₀, ?_⟩)
              rw [declares_cons]
              rintro (⟨n', h, hi⟩ | h)
              · rw [Statement.declare.injEq] at h
                subst h
                exact hne hi.symm
              · exact hrest h
        | relate l locations metadata =>
            have hdeclares : ¬ Declares (Statement.relate l locations metadata :: rest) m.identity := by
              rw [declares_cons]
              simpa using hrest
            rw [apply_relate_graph, Graph.relate_nodes] at hm₁
            rcases Graph.mem_withEnds hw.graph hm₁ with hm₀ | ⟨hnew, hend, hmp⟩
            · exact Or.inr (Or.inl ⟨hm₀, hdeclares⟩)
            · exact Or.inr (Or.inr ⟨hnew, hdeclares, hmp, l, relates_cons.2 (Or.inl ⟨_, _, rfl⟩), hend⟩)
      · rw [has_apply hw] at hnew
        refine Or.inr (Or.inr ⟨fun h => hnew (Or.inl h), ?_, hmp, l, relates_cons.2 (Or.inr hl), hend⟩)
        rw [declares_cons]
        rintro (⟨n, rfl, hi⟩ | h)
        · exact hnew (Or.inr hi.symm)
        · exact hrest h

theorem mem_touched_apply (hw : w.Sound) (s : Statement) (id : Int) :
    id ∈ (s.apply o w).touched ↔
      id ∈ w.touched ∨ ∃ n, s = .declare n ∧ (s.apply o w).graph.Names id n.identity := by
  cases s with
  | declare n =>
      have hself := Graph.names_upsertNode_self hw.graph n
      have hname : (w.graph.upsertNode n).1.Names id n.identity ↔ id = (w.graph.upsertNode n).2 := by
        constructor
        · intro h
          exact h.id_eq (hw.graph.upsertNode n) hself
        · rintro rfl
          exact hself
      simp only [Statement.declare.injEq, exists_eq_left', apply_declare_graph, hname]
      simp only [Statement.apply]
      by_cases hmem : (w.graph.upsertNode n).2 ∈ w.touched
      · simp only [List.contains_iff_mem.2 hmem, Bool.not_true, Bool.false_eq_true, if_false]
        constructor
        · exact Or.inl
        · rintro (h | rfl)
          · exact h
          · exact hmem
      · simp [hmem]
  | relate l locations metadata =>
      simp only [reduceCtorEq, false_and, exists_false, or_false]
      rfl

/-- The nodes that a unit touches are those that its statements declare. -/
theorem mem_touched_applyAll (hw : w.Sound) (statements : List Statement) (id : Int) :
    id ∈ (applyAll o w statements).touched ↔
      id ∈ w.touched ∨ ∃ i, Declares statements i ∧ (applyAll o w statements).graph.Names id i := by
  induction statements generalizing w with
  | nil => simp [Declares]
  | cons s rest ih =>
      have hs := sound_apply (o := o) hw s
      rw [applyAll_cons, ih hs, mem_touched_apply hw, or_assoc]
      refine or_congr_right ?_
      constructor
      · rintro (⟨n, hn, hname⟩ | ⟨i, hi, hname⟩)
        · exact ⟨n.identity, declares_cons.2 (Or.inl ⟨n, hn, rfl⟩), names_applyAll hs hname rest⟩
        · exact ⟨i, declares_cons.2 (Or.inr hi), hname⟩
      · rintro ⟨i, hi, hname⟩
        rcases declares_cons.1 hi with ⟨n, rfl, rfl⟩ | hi
        · left
          refine ⟨n, rfl, ?_⟩
          have hself := Graph.names_upsertNode_self hw.graph n
          have hid := hname.id_eq (sound_applyAll hs rest).graph (names_applyAll hs hself rest)
          rw [hid]
          exact hself
        · exact Or.inr ⟨i, hi, hname⟩

end Projection

end CodeAtlas
