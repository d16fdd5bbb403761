import CodeAtlas.Proofs.Graph.Identity
/-!
# Who holds which edge

A `Link` is an edge as users see it: its kind and the identities of its ends. `g.Holds l o` says that the origin `o`
holds the edge of the link `l`, and `holdings` lists all such pairs. Writing an edge adds its origin to the holders
and takes none away; an origin that lets go of edges takes its own name off them, and an edge that nobody holds any
more is gone.
-/

namespace CodeAtlas

/-- An edge by its kind and the identities of its ends. -/
structure Link where
  kind : EdgeKind
  source : Identity
  target : Identity
deriving Repr, DecidableEq

/-- Dropping and changing elements under the same keys leaves a part of the keys, in order. -/
theorem map_filterMap_sublist {α β : Type*} {f : α → Option α} {key : α → β}
    (h : ∀ a b, f a = some b → key b = key a) (l : List α) : ((l.filterMap f).map key).Sublist (l.map key) := by
  induction l with
  | nil => simp
  | cons a rest ih =>
      rw [List.filterMap_cons, List.map_cons]
      cases hf : f a with
      | none => exact ih.cons _
      | some b =>
          rw [← h a b hf]
          exact ih.cons_cons _

namespace Edge

theorem mem_insertHolder (o x : String) (holders : List String) :
    x ∈ insertHolder o holders ↔ x = o ∨ x ∈ holders := by
  induction holders with
  | nil => simp [insertHolder]
  | cons held rest ih =>
      unfold insertHolder
      split
      · rename_i h
        subst h
        simp
      · split
        · simp
        · simp only [List.mem_cons, ih]
          tauto

/-- An edge without one of its holders, if any other is left. -/
def released (o : String) (e : Edge) : Option Edge :=
  match e.holders.filter (· ≠ o) with
  | [] => none
  | first :: rest => some { e with origin := some first, holders := first :: rest }

theorem released_of_filter_nil {o : String} {e : Edge} (h : e.holders.filter (· ≠ o) = []) :
    e.released o = none := by
  simp only [released, h]

theorem released_of_filter_cons {o first : String} {rest : List String} {e : Edge}
    (h : e.holders.filter (· ≠ o) = first :: rest) :
    e.released o = some { e with origin := some first, holders := first :: rest } := by
  simp only [released, h]

/-- What an edge keeps when an origin lets go of it: all but that holder. -/
theorem released_eq_some {o : String} {e e' : Edge} (h : e.released o = some e') :
    e'.id = e.id ∧ e'.identity = e.identity ∧ e'.locations = e.locations ∧
      e'.holders = e.holders.filter (· ≠ o) := by
  unfold released at h
  split at h
  · exact absurd h (by simp)
  · rename_i first rest hrest
    rw [Option.some.injEq] at h
    subst h
    exact ⟨rfl, rfl, rfl, hrest.symm⟩

theorem exists_holder_of_released {o : String} {e e' : Edge} (h : e.released o = some e') : ∃ x, x ∈ e'.holders := by
  unfold released at h
  split at h
  · exact absurd h (by simp)
  · rename_i first rest _
    rw [Option.some.injEq] at h
    subst h
    exact ⟨first, List.mem_cons_self⟩

theorem exists_released {o : String} {e : Edge} {x : String} (hx : x ∈ e.holders) (hne : x ≠ o) :
    ∃ e', e.released o = some e' := by
  have hmem : x ∈ e.holders.filter (· ≠ o) := by simpa using ⟨hx, hne⟩
  cases hf : e.holders.filter (· ≠ o) with
  | nil =>
      rw [hf] at hmem
      exact absurd hmem (by simp)
  | cons first rest => exact ⟨_, released_of_filter_cons hf⟩

theorem released_released {o : String} {e e' : Edge} (h : e.released o = some e') : e'.released o = some e' := by
  unfold released at h
  split at h
  · exact absurd h (by simp)
  · rename_i first rest hrest
    rw [Option.some.injEq] at h
    subst h
    apply released_of_filter_cons
    rw [← hrest]
    simp

end Edge

namespace Graph

/-- The edge `e` is the one of the link `l`. -/
def Joins (g : Graph) (e : Edge) (l : Link) : Prop :=
  e.kind = l.kind ∧ g.Names e.source l.source ∧ g.Names e.target l.target

/-- The origin `o` holds the edge of the link `l`. -/
def Holds (g : Graph) (l : Link) (o : String) : Prop := ∃ e ∈ g.edges, g.Joins e l ∧ o ∈ e.holders

/-- Somebody holds each edge. -/
def AllHeld (g : Graph) : Prop := ∀ e ∈ g.edges, ∃ o, o ∈ e.holders

/-- Every link with each of its holders. -/
def holdings (g : Graph) : List (Link × String) :=
  g.edges.flatMap fun e =>
    match g.node? e.source, g.node? e.target with
    | some s, some t => e.holders.map fun o => (⟨e.kind, s.identity, t.identity⟩, o)
    | _, _ => []

theorem WellFormed.exists_joins {g : Graph} (hg : g.WellFormed) {e : Edge} (he : e ∈ g.edges) :
    ∃ l, g.Joins e l := by
  obtain ⟨⟨s, hs, hsid⟩, ⟨t, ht, htid⟩⟩ := hg.ends e he
  exact ⟨⟨e.kind, s.identity, t.identity⟩, rfl, ⟨s, hs, hsid, rfl⟩, ⟨t, ht, htid, rfl⟩⟩

theorem Joins.link_eq {g : Graph} (hg : g.WellFormed) {e : Edge} {l m : Link} (hl : g.Joins e l)
    (hm : g.Joins e m) : l = m := by
  obtain ⟨hlk, hls, hlt⟩ := hl
  obtain ⟨hmk, hms, hmt⟩ := hm
  cases l
  cases m
  simp only [Link.mk.injEq]
  exact ⟨hlk.symm.trans hmk, hls.identity_eq hg hms, hlt.identity_eq hg hmt⟩

theorem Joins.edge_eq {g : Graph} (hg : g.WellFormed) {e f : Edge} (he : e ∈ g.edges) (hf : f ∈ g.edges)
    {l : Link} (hel : g.Joins e l) (hfl : g.Joins f l) : e = f := by
  apply hg.edge_eq_of_identity he hf
  simp only [Edge.identity, Prod.mk.injEq]
  exact ⟨hel.1.trans hfl.1.symm, hel.2.1.id_eq hg hfl.2.1, hel.2.2.id_eq hg hfl.2.2⟩

theorem mem_holdings {g : Graph} (hg : g.WellFormed) (l : Link) (o : String) :
    (l, o) ∈ g.holdings ↔ g.Holds l o := by
  simp only [holdings, List.mem_flatMap, Holds]
  constructor
  · rintro ⟨e, he, h⟩
    split at h
    · rename_i s t hs ht
      obtain ⟨x, hx, heq⟩ := List.mem_map.1 h
      simp only [Prod.mk.injEq] at heq
      obtain ⟨rfl, rfl⟩ := heq
      obtain ⟨hs, hsid⟩ := (node?_eq_some_iff hg _ _).1 hs
      obtain ⟨ht, htid⟩ := (node?_eq_some_iff hg _ _).1 ht
      exact ⟨e, he, ⟨rfl, ⟨s, hs, hsid, rfl⟩, ⟨t, ht, htid, rfl⟩⟩, hx⟩
    · exact absurd h (by simp)
  · rintro ⟨e, he, ⟨hk, ⟨s, hs, hsid, hsi⟩, ⟨t, ht, htid, hti⟩⟩, ho⟩
    refine ⟨e, he, ?_⟩
    rw [(node?_eq_some_iff hg _ _).2 ⟨hs, hsid⟩, (node?_eq_some_iff hg _ _).2 ⟨ht, htid⟩]
    refine List.mem_map.2 ⟨o, ho, ?_⟩
    cases l
    simp_all

/-! ## Writing an edge -/

/-- Writes an edge between nodes that exist. -/
def putEdge (g : Graph) (n : NewEdge) : Graph × Int :=
  match g.findEdge? n.kind n.source n.target with
  | some old =>
    ({ g with
        edges := g.edges.map fun e => if e.id = old.id then n.stored e.id e.holders else e
        nextEdge := g.nextEdge + 1 }, old.id)
  | none => ({ g with edges := g.edges ++ [n.stored g.nextEdge []], nextEdge := g.nextEdge + 1 }, g.nextEdge)

/-- The holders of an edge before it is written. -/
def heldBefore (g : Graph) (n : NewEdge) : List String :=
  ((g.findEdge? n.kind n.source n.target).map (·.holders)).getD []

theorem upsertEdge_eq_putEdge {g : Graph} {n : NewEdge} {s t : Identity} (hs : g.Names n.source s)
    (ht : g.Names n.target t) : g.upsertEdge n = .ok (g.putEdge n) := by
  simp only [upsertEdge, putEdge, hs.node?_isSome, ht.node?_isSome, Bool.or_self, Bool.false_eq_true, if_false]
  cases g.findEdge? n.kind n.source n.target <;> rfl

@[simp] theorem putEdge_nodes (g : Graph) (n : NewEdge) : (g.putEdge n).1.nodes = g.nodes := by
  unfold putEdge
  split <;> rfl

@[simp] theorem putEdge_nextNode (g : Graph) (n : NewEdge) : (g.putEdge n).1.nextNode = g.nextNode := by
  unfold putEdge
  split <;> rfl

@[simp] theorem putEdge_nextEdge (g : Graph) (n : NewEdge) : (g.putEdge n).1.nextEdge = g.nextEdge + 1 := by
  unfold putEdge
  split <;> rfl

@[simp] theorem names_putEdge (g : Graph) (n : NewEdge) (id : Int) (i : Identity) :
    (g.putEdge n).1.Names id i ↔ g.Names id i := by
  simp [Names]

theorem findEdge?_eq_some_iff {g : Graph} (hg : g.WellFormed) (n : NewEdge) (e : Edge) :
    g.findEdge? n.kind n.source n.target = some e ↔ e ∈ g.edges ∧ e.identity = n.identity := by
  have huniq : ∀ a ∈ g.edges, ∀ b ∈ g.edges,
      (decide (a.kind = n.kind) && decide (a.source = n.source) && decide (a.target = n.target)) = true →
      (decide (b.kind = n.kind) && decide (b.source = n.source) && decide (b.target = n.target)) = true → a = b := by
    intro a ha b hb hpa hpb
    simp only [Bool.and_eq_true, decide_eq_true_eq] at hpa hpb
    apply hg.edge_eq_of_identity ha hb
    simp [Edge.identity, hpa, hpb]
  rw [findEdge?, find?_eq_some_of_unique huniq]
  simp [Edge.identity, NewEdge.identity, and_assoc]

theorem identity_ne_of_findEdge? {g : Graph} (hg : g.WellFormed) {n : NewEdge}
    (h : g.findEdge? n.kind n.source n.target = none) : ∀ e ∈ g.edges, e.identity ≠ n.identity := by
  intro e he hi
  have hsome := (findEdge?_eq_some_iff hg n e).2 ⟨he, hi⟩
  rw [h] at hsome
  exact absurd hsome (by simp)

/-- After a write the edge written stands in place of the one with its kind and ends, and is held by those who held
it and by its origin; all other edges are as before. -/
theorem mem_putEdge {g : Graph} (hg : g.WellFormed) (n : NewEdge) (e : Edge) :
    e ∈ (g.putEdge n).1.edges ↔
      e = n.stored (g.putEdge n).2 (g.heldBefore n) ∨ (e ∈ g.edges ∧ e.identity ≠ n.identity) := by
  cases hf : g.findEdge? n.kind n.source n.target with
  | some old =>
      obtain ⟨hold, holdIdentity⟩ := (findEdge?_eq_some_iff hg n old).1 hf
      simp only [putEdge, heldBefore, hf, Option.map_some, Option.getD_some]
      rw [← holdIdentity]
      exact hg.keyedEdges.mem_replace hold (fun a => n.stored a.id a.holders) e
  | none =>
      simp only [putEdge, heldBefore, hf, Option.map_none, Option.getD_none]
      exact Keyed.mem_add (identity_ne_of_findEdge? hg hf) e

theorem keyed_putEdge {g : Graph} (hg : g.WellFormed) (n : NewEdge) :
    Keyed Edge.id Edge.identity (g.putEdge n).1.nextEdge (g.putEdge n).1.edges := by
  rw [putEdge_nextEdge]
  cases hf : g.findEdge? n.kind n.source n.target with
  | some old =>
      obtain ⟨hold, holdIdentity⟩ := (findEdge?_eq_some_iff hg n old).1 hf
      simp only [putEdge, hf]
      exact hg.keyedEdges.replace hold rfl holdIdentity.symm
  | none =>
      simp only [putEdge, hf]
      exact hg.keyedEdges.add rfl (identity_ne_of_findEdge? hg hf)

/-- A known edge keeps its id. -/
theorem putEdge_snd_of_mem {g : Graph} (hg : g.WellFormed) {n : NewEdge} {e : Edge} (he : e ∈ g.edges)
    (hi : e.identity = n.identity) : (g.putEdge n).2 = e.id := by
  simp [putEdge, (findEdge?_eq_some_iff hg n e).2 ⟨he, hi⟩]

/-- A new edge gets an id that no edge had. -/
theorem putEdge_snd_of_new {g : Graph} (hg : g.WellFormed) {n : NewEdge}
    (h : ∀ e ∈ g.edges, e.identity ≠ n.identity) : (g.putEdge n).2 = g.nextEdge := by
  cases hf : g.findEdge? n.kind n.source n.target with
  | some old =>
      obtain ⟨hold, holdIdentity⟩ := (findEdge?_eq_some_iff hg n old).1 hf
      exact absurd holdIdentity (h old hold)
  | none => simp [putEdge, hf]

theorem mem_heldBefore {g : Graph} (hg : g.WellFormed) (n : NewEdge) (o : String) :
    o ∈ g.heldBefore n ↔ ∃ e ∈ g.edges, e.identity = n.identity ∧ o ∈ e.holders := by
  cases hf : g.findEdge? n.kind n.source n.target with
  | some old =>
      obtain ⟨hold, holdIdentity⟩ := (findEdge?_eq_some_iff hg n old).1 hf
      simp only [heldBefore, hf, Option.map_some, Option.getD_some]
      constructor
      · intro ho
        exact ⟨old, hold, holdIdentity, ho⟩
      · rintro ⟨e, he, hi, ho⟩
        rw [hg.edge_eq_of_identity hold he (holdIdentity.trans hi.symm)]
        exact ho
  | none =>
      simp only [heldBefore, hf, Option.map_none, Option.getD_none, List.not_mem_nil, false_iff]
      rintro ⟨e, he, hi, _⟩
      exact identity_ne_of_findEdge? hg hf e he hi

theorem WellFormed.putEdge {g : Graph} (hg : g.WellFormed) {n : NewEdge} {s t : Identity}
    (hs : g.Names n.source s) (ht : g.Names n.target t) : (g.putEdge n).1.WellFormed := by
  have hedges := keyed_putEdge hg n
  refine ⟨by simpa using hg.nodeIds, by simpa using hg.nodeIdentities, by simpa using hg.nodesBelow, hedges.ids,
    hedges.keys, hedges.below, ?_⟩
  intro e he
  rw [putEdge_nodes]
  rcases (mem_putEdge hg n e).1 he with rfl | ⟨he, _⟩
  · obtain ⟨a, ha, haid, _⟩ := hs
    obtain ⟨b, hb, hbid, _⟩ := ht
    exact ⟨⟨a, ha, haid⟩, ⟨b, hb, hbid⟩⟩
  · exact hg.ends e he

@[simp] theorem joins_putEdge (g : Graph) (n : NewEdge) (e : Edge) (l : Link) :
    (g.putEdge n).1.Joins e l ↔ g.Joins e l := by
  simp [Joins]

/-- Whether an edge is the one of a link depends on its kind and ends only. -/
theorem joins_congr {g : Graph} {e f : Edge} (h : e.identity = f.identity) (l : Link) :
    g.Joins e l ↔ g.Joins f l := by
  simp only [Edge.identity, Prod.mk.injEq] at h
  simp only [Joins, h]

/-- Writing an edge makes its origin a holder, and changes no other holding. -/
theorem holds_putEdge {g : Graph} (hg : g.WellFormed) {n : NewEdge} {s t : Identity} {o : String}
    (hs : g.Names n.source s) (ht : g.Names n.target t) (ho : n.origin = some o) (l : Link) (x : String) :
    (g.putEdge n).1.Holds l x ↔ g.Holds l x ∨ (l = ⟨n.kind, s, t⟩ ∧ x = o) := by
  have hnew : ∀ id holders, g.Joins (n.stored id holders) l ↔ l = ⟨n.kind, s, t⟩ := by
    intro id holders
    have hjoin : g.Joins (n.stored id holders) ⟨n.kind, s, t⟩ := ⟨rfl, hs, ht⟩
    constructor
    · intro h
      exact h.link_eq hg hjoin
    · rintro rfl
      exact hjoin
  have hholders : ∀ id holders, x ∈ (n.stored id holders).holders ↔ x = o ∨ x ∈ holders := by
    intro id holders
    simp only [NewEdge.stored, Edge.withHolder, ho]
    exact Edge.mem_insertHolder o x holders
  constructor
  · rintro ⟨e, he, hjoin, hx⟩
    rw [joins_putEdge] at hjoin
    rcases (mem_putEdge hg n e).1 he with rfl | ⟨he, _⟩
    · rcases (hholders _ _).1 hx with rfl | hx
      · exact Or.inr ⟨(hnew _ _).1 hjoin, rfl⟩
      · obtain ⟨old, hold, hi, hx⟩ := (mem_heldBefore hg n x).1 hx
        exact Or.inl ⟨old, hold, (joins_congr hi l).2 hjoin, hx⟩
    · exact Or.inl ⟨e, he, hjoin, hx⟩
  · rintro (⟨e, he, hjoin, hx⟩ | ⟨hl, rfl⟩)
    · by_cases hi : e.identity = n.identity
      · refine ⟨_, (mem_putEdge hg n _).2 (Or.inl rfl), ?_, ?_⟩
        · rw [joins_putEdge]
          exact (joins_congr hi l).1 hjoin
        · exact (hholders _ _).2 (Or.inr ((mem_heldBefore hg n x).2 ⟨e, he, hi, hx⟩))
      · refine ⟨e, (mem_putEdge hg n e).2 (Or.inr ⟨he, hi⟩), ?_, hx⟩
        rw [joins_putEdge]
        exact hjoin
    · refine ⟨_, (mem_putEdge hg n _).2 (Or.inl rfl), ?_, (hholders _ _).2 (Or.inl rfl)⟩
      rw [joins_putEdge]
      exact (hnew _ _).2 hl

/-! ## Letting go of edges -/

theorem edge?_eq_some_iff {g : Graph} (hg : g.WellFormed) (id : Int) (e : Edge) :
    g.edge? id = some e ↔ e ∈ g.edges ∧ e.id = id := by
  have huniq : ∀ a ∈ g.edges, ∀ b ∈ g.edges, decide (a.id = id) = true → decide (b.id = id) = true → a = b := by
    intro a ha b hb hpa hpb
    simp only [decide_eq_true_eq] at hpa hpb
    exact hg.edge_eq_of_id ha hb (hpa.trans hpb.symm)
  rw [edge?, find?_eq_some_of_unique huniq, decide_eq_true_eq]

theorem holdersOf_of_mem {g : Graph} (hg : g.WellFormed) {e : Edge} (he : e ∈ g.edges) :
    g.holdersOf e.id = e.holders := by
  rw [holdersOf, (edge?_eq_some_iff hg e.id e).2 ⟨he, rfl⟩, Option.map_some, Option.getD_some]

/-- The edges after an origin has let go of one of them. -/
theorem releaseEdge_edges {g : Graph} (hg : g.WellFormed) (id : Int) (o : String) :
    (g.releaseEdge id o).1.edges = g.edges.filterMap fun e => if e.id = id then e.released o else some e := by
  have hholders : ∀ e ∈ g.edges, e.id = id → g.holdersOf id = e.holders := by
    rintro e he rfl
    exact holdersOf_of_mem hg he
  unfold releaseEdge
  split
  · rename_i hnil
    simp only [deleteEdge]
    rw [← List.filterMap_eq_filter]
    apply List.filterMap_congr
    intro e he
    by_cases hid : e.id = id
    · rw [hholders e he hid] at hnil
      simp [Option.guard, hid, Edge.released_of_filter_nil hnil]
    · simp [Option.guard, hid]
  · rename_i first rest hcons
    simp only
    rw [← List.filterMap_eq_map]
    apply List.filterMap_congr
    intro e he
    by_cases hid : e.id = id
    · rw [hholders e he hid] at hcons
      simp [hid, Edge.released_of_filter_cons hcons]
    · simp [hid]

@[simp] theorem releaseEdge_nodes (g : Graph) (id : Int) (o : String) :
    (g.releaseEdge id o).1.nodes = g.nodes := by
  unfold releaseEdge
  split <;> rfl

@[simp] theorem releaseEdge_nextNode (g : Graph) (id : Int) (o : String) :
    (g.releaseEdge id o).1.nextNode = g.nextNode := by
  unfold releaseEdge
  split <;> rfl

@[simp] theorem releaseEdge_nextEdge (g : Graph) (id : Int) (o : String) :
    (g.releaseEdge id o).1.nextEdge = g.nextEdge := by
  unfold releaseEdge
  split <;> rfl

/-- An origin lets go of several edges. -/
def releaseAll (g : Graph) (ids : List Int) (o : String) : Graph :=
  ids.foldl (fun g id => (g.releaseEdge id o).1) g

theorem WellFormed.releaseEdge {g : Graph} (hg : g.WellFormed) (id : Int) (o : String) :
    (g.releaseEdge id o).1.WellFormed := by
  have hkeeps : ∀ e e' : Edge, (if e.id = id then e.released o else some e) = some e' →
      e'.id = e.id ∧ e'.identity = e.identity := by
    intro e e' h
    split at h
    · exact ⟨(Edge.released_eq_some h).1, (Edge.released_eq_some h).2.1⟩
    · rw [Option.some.injEq] at h
      subst h
      exact ⟨rfl, rfl⟩
  have hmem : ∀ e' ∈ (g.releaseEdge id o).1.edges, ∃ e ∈ g.edges, e'.id = e.id ∧ e'.identity = e.identity := by
    intro e' he'
    rw [releaseEdge_edges hg] at he'
    obtain ⟨e, he, h⟩ := List.mem_filterMap.1 he'
    exact ⟨e, he, hkeeps e e' h⟩
  refine ⟨by simpa using hg.nodeIds, by simpa using hg.nodeIdentities, by simpa using hg.nodesBelow,
    ?_, ?_, ?_, ?_⟩
  · rw [releaseEdge_edges hg]
    exact hg.edgeIds.sublist (map_filterMap_sublist (fun e e' h => (hkeeps e e' h).1) _)
  · rw [releaseEdge_edges hg]
    exact hg.edgeIdentities.sublist (map_filterMap_sublist (fun e e' h => (hkeeps e e' h).2) _)
  · intro e' he'
    obtain ⟨e, he, hid, _⟩ := hmem e' he'
    rw [releaseEdge_nextEdge, hid]
    exact hg.edgesBelow e he
  · intro e' he'
    obtain ⟨e, he, _, hi⟩ := hmem e' he'
    simp only [Edge.identity, Prod.mk.injEq] at hi
    rw [releaseEdge_nodes, hi.2.1, hi.2.2]
    exact hg.ends e he

theorem WellFormed.releaseAll {g : Graph} (hg : g.WellFormed) (ids : List Int) (o : String) :
    (g.releaseAll ids o).WellFormed := by
  induction ids generalizing g with
  | nil => exact hg
  | cons id rest ih => exact ih (hg.releaseEdge id o)

@[simp] theorem releaseAll_nodes (g : Graph) (ids : List Int) (o : String) : (g.releaseAll ids o).nodes = g.nodes := by
  induction ids generalizing g with
  | nil => rfl
  | cons id rest ih =>
      have h := ih (g.releaseEdge id o).1
      rw [releaseEdge_nodes] at h
      exact h

/-- The edges after an origin has let go of some of them. -/
theorem releaseAll_edges {g : Graph} (hg : g.WellFormed) (ids : List Int) (o : String) :
    (g.releaseAll ids o).edges = g.edges.filterMap fun e => if e.id ∈ ids then e.released o else some e := by
  induction ids generalizing g with
  | nil => simp [releaseAll]
  | cons id rest ih =>
      change ((g.releaseEdge id o).1.releaseAll rest o).edges = _
      rw [ih (hg.releaseEdge id o), releaseEdge_edges hg, List.filterMap_filterMap]
      apply List.filterMap_congr
      intro e _
      by_cases hid : e.id = id
      · rw [if_pos hid, if_pos (by simp [hid])]
        cases hr : e.released o with
        | none => rfl
        | some e' =>
            rw [Option.bind_some, Edge.released_released hr]
            exact ite_self _
      · simp [hid]

theorem mem_releaseAll {g : Graph} (hg : g.WellFormed) (ids : List Int) (o : String) (e' : Edge) :
    e' ∈ (g.releaseAll ids o).edges ↔
      (e' ∈ g.edges ∧ e'.id ∉ ids) ∨ ∃ e ∈ g.edges, e.id ∈ ids ∧ e.released o = some e' := by
  rw [releaseAll_edges hg, List.mem_filterMap]
  constructor
  · rintro ⟨e, he, h⟩
    by_cases hid : e.id ∈ ids
    · rw [if_pos hid] at h
      exact Or.inr ⟨e, he, hid, h⟩
    · rw [if_neg hid, Option.some.injEq] at h
      subst h
      exact Or.inl ⟨he, hid⟩
  · rintro (⟨he, hid⟩ | ⟨e, he, hid, h⟩)
    · exact ⟨e', he, if_neg hid⟩
    · exact ⟨e, he, by rw [if_pos hid]; exact h⟩

@[simp] theorem names_releaseAll (g : Graph) (ids : List Int) (o : String) (id : Int) (i : Identity) :
    (g.releaseAll ids o).Names id i ↔ g.Names id i := by
  simp [Names]

@[simp] theorem joins_releaseAll (g : Graph) (ids : List Int) (o : String) (e : Edge) (l : Link) :
    (g.releaseAll ids o).Joins e l ↔ g.Joins e l := by
  simp [Joins]

/-- Letting go of edges takes the origin off exactly these. -/
theorem holds_releaseAll {g : Graph} (hg : g.WellFormed) (ids : List Int) (o : String) (l : Link) (x : String) :
    (g.releaseAll ids o).Holds l x ↔
      ∃ e ∈ g.edges, g.Joins e l ∧ x ∈ e.holders ∧ (e.id ∈ ids → x ≠ o) := by
  constructor
  · rintro ⟨e', he', hjoin, hx⟩
    rw [joins_releaseAll] at hjoin
    rcases (mem_releaseAll hg ids o e').1 he' with ⟨he, hid⟩ | ⟨e, he, _, h⟩
    · exact ⟨e', he, hjoin, hx, fun hmem => absurd hmem hid⟩
    · obtain ⟨_, hi, _, hholders⟩ := Edge.released_eq_some h
      rw [hholders] at hx
      obtain ⟨hx, hne⟩ := List.mem_filter.1 hx
      exact ⟨e, he, (joins_congr hi l).1 hjoin, hx, fun _ => by simpa using hne⟩
  · rintro ⟨e, he, hjoin, hx, hne⟩
    by_cases hid : e.id ∈ ids
    · obtain ⟨e', h⟩ := Edge.exists_released hx (hne hid)
      obtain ⟨_, hi, _, hholders⟩ := Edge.released_eq_some h
      refine ⟨e', (mem_releaseAll hg ids o e').2 (Or.inr ⟨e, he, hid, h⟩), ?_, ?_⟩
      · rw [joins_releaseAll]
        exact (joins_congr hi l).2 hjoin
      · rw [hholders]
        exact List.mem_filter.2 ⟨hx, by simpa using hne hid⟩
    · refine ⟨e, (mem_releaseAll hg ids o e).2 (Or.inl ⟨he, hid⟩), ?_, hx⟩
      rw [joins_releaseAll]
      exact hjoin

end Graph

end CodeAtlas
