import CodeAtlas.Proofs.Projection.Lasting
/-!
# The last word

Of several statements about a node or a link the last one counts: afterwards the node is as it was declared last
(`stored_of_lastDeclared`), and the edge has the locations and metadata that were stated last, with the unit's origin on
record and among its holders (`worded_of_lastRelated`). Both stay so to the end of the unit, whose clearing away leaves
alone what was written again (`stored_unit`, `worded_unit`).
-/

namespace CodeAtlas

theorem Edge.insertHolder_insertHolder (o : String) (holders : List String) :
    Edge.insertHolder o (Edge.insertHolder o holders) = Edge.insertHolder o holders := by
  induction holders with
  | nil => simp [insertHolder]
  | cons held rest ih =>
      by_cases heq : o = held
      · simp [insertHolder, heq]
      · by_cases hlt : o < held
        · simp [insertHolder, heq, hlt]
        · simp [insertHolder, heq, hlt, ih]

/-- An edge as a unit has written it. -/
structure Edge.Worded (o : String) (locations : List String) (metadata : Json) (e : Edge) : Prop where
  locations : e.locations = locations
  metadata : e.metadata = metadata.canonical
  origin : e.origin = some o
  held : Edge.insertHolder o e.holders = e.holders

namespace Graph

variable {g : Graph} {origin : String} {l : Link} {locations : List String} {metadata : Json}

theorem heldBefore_of_mem (hg : g.WellFormed) {n : NewEdge} {e : Edge} (he : e ∈ g.edges)
    (hi : e.identity = n.identity) : g.heldBefore n = e.holders := by
  simp [heldBefore, (findEdge?_eq_some_iff hg n e).2 ⟨he, hi⟩]

/-- Every edge is the one written, with the holders from before and the origin, or one from before of another link. -/
theorem mem_relate_cases (hg : g.WellFormed) {e : Edge} (he : e ∈ (g.relate origin l locations metadata).1.edges) :
    (e.Worded origin locations metadata ∧ (g.relate origin l locations metadata).1.Joins e l ∧
        ∀ e₀ ∈ g.edges, e₀.identity = e.identity → e.holders = Edge.insertHolder origin e₀.holders) ∨
      (e ∈ g.edges ∧ ¬ (g.relate origin l locations metadata).1.Joins e l) := by
  have hjoin : (g.relate origin l locations metadata).1.Joins
      ((g.linkEdge origin l locations metadata).stored 0 []) l := by
    rw [relate_eq, joins_putEdge]
    exact ⟨rfl, names_sourceId hg, names_targetId hg⟩
  rw [relate_eq] at he
  rcases (mem_putEdge hg.withEnds _ _).1 he with rfl | ⟨he, hne⟩
  · left
    refine ⟨⟨rfl, rfl, rfl, Edge.insertHolder_insertHolder _ _⟩, hjoin, ?_⟩
    intro e₀ he₀ hi
    rw [← withEnds_edges (l := l)] at he₀
    change Edge.insertHolder origin _ = _
    rw [heldBefore_of_mem hg.withEnds he₀ hi]
  · right
    rw [withEnds_edges] at he
    refine ⟨he, fun h => hne ?_⟩
    have hwf : (g.relate origin l locations metadata).1.WellFormed := hg.relate
    simp only [Edge.identity, NewEdge.identity, Prod.mk.injEq]
    exact ⟨h.1, h.2.1.id_eq hwf hjoin.2.1, h.2.2.id_eq hwf hjoin.2.2⟩

end Graph

namespace Projection

namespace Statement

/-- The node that a statement declares, if it has the identity `i`. -/
def declared? (i : Identity) : Statement → Option NewNode
  | .declare n => if n.identity = i then some n else none
  | .relate _ _ _ => none

/-- The locations and metadata that a statement gives to the link `l`. -/
def related? (l : Link) : Statement → Option (List String × Json)
  | .declare _ => none
  | .relate k locations metadata => if k = l then some (locations, metadata) else none

end Statement

/-- The last declaration of a node among statements. -/
def lastDeclared? (statements : List Statement) (i : Identity) : Option NewNode :=
  (statements.filterMap (Statement.declared? i)).getLast?

/-- What is said last of a link among statements. -/
def lastRelated? (statements : List Statement) (l : Link) : Option (List String × Json) :=
  (statements.filterMap (Statement.related? l)).getLast?

theorem lastDeclared?_append (first second : List Statement) (i : Identity) :
    lastDeclared? (first ++ second) i = (lastDeclared? second i).or (lastDeclared? first i) := by
  rw [lastDeclared?, List.filterMap_append, List.getLast?_append]
  rfl

theorem lastRelated?_append (first second : List Statement) (l : Link) :
    lastRelated? (first ++ second) l = (lastRelated? second l).or (lastRelated? first l) := by
  rw [lastRelated?, List.filterMap_append, List.getLast?_append]
  rfl

theorem lastDeclared?_singleton (s : Statement) (i : Identity) : lastDeclared? [s] i = s.declared? i := by
  rw [lastDeclared?, List.filterMap_cons]
  cases s.declared? i <;> rfl

theorem lastRelated?_singleton (s : Statement) (l : Link) : lastRelated? [s] l = s.related? l := by
  rw [lastRelated?, List.filterMap_cons]
  cases s.related? l <;> rfl

theorem mem_of_lastRelated {statements : List Statement} {l : Link} {locations : List String} {metadata : Json}
    (h : lastRelated? statements l = some (locations, metadata)) :
    Statement.relate l locations metadata ∈ statements := by
  obtain ⟨s, hs, hr⟩ := List.mem_filterMap.1 (List.mem_of_getLast? h)
  cases s with
  | declare n => exact absurd hr (by simp [Statement.related?])
  | relate k locations' metadata' =>
      simp only [Statement.related?, Option.ite_none_right_eq_some, Option.some.injEq, Prod.mk.injEq] at hr
      obtain ⟨rfl, rfl, rfl⟩ := hr
      exact hs

/-- What is declared is declared for a last time. -/
theorem exists_lastDeclared {statements : List Statement} {i : Identity} (h : Declares statements i) :
    ∃ n, lastDeclared? statements i = some n := by
  obtain ⟨n, hn, hi⟩ := h
  have hmem : n ∈ statements.filterMap (Statement.declared? i) := List.mem_filterMap.2 ⟨_, hn, if_pos hi⟩
  exact ⟨_, List.getLast?_eq_some_getLast (List.ne_nil_of_mem hmem)⟩

theorem exists_lastRelated {statements : List Statement} {l : Link} (h : Relates statements l) :
    ∃ locations metadata, lastRelated? statements l = some (locations, metadata) := by
  obtain ⟨locations, metadata, hs⟩ := h
  have hmem : (locations, metadata) ∈ statements.filterMap (Statement.related? l) :=
    List.mem_filterMap.2 ⟨_, hs, if_pos rfl⟩
  exact ⟨_, _, List.getLast?_eq_some_getLast (List.ne_nil_of_mem hmem)⟩

theorem lastRelated?_eq_none {statements : List Statement} {l : Link} (h : ¬ Relates statements l) :
    lastRelated? statements l = none := by
  cases hlast : lastRelated? statements l with
  | none => rfl
  | some said => exact absurd ⟨said.1, said.2, mem_of_lastRelated hlast⟩ h

theorem declares_of_lastDeclared {statements : List Statement} {i : Identity} {n : NewNode}
    (h : lastDeclared? statements i = some n) : Declares statements i := by
  obtain ⟨s, hs, hd⟩ := List.mem_filterMap.1 (List.mem_of_getLast? h)
  cases s with
  | declare k =>
      simp only [Statement.declared?, Option.ite_none_right_eq_some, Option.some.injEq] at hd
      exact ⟨k, hs, hd.1⟩
  | relate l locations metadata => exact absurd hd (by simp [Statement.declared?])

/-! ## While a unit writes -/

variable {o : String} {w : Work} {statements : List Statement}

/-- A node is as it was declared last. -/
theorem stored_of_lastDeclared (hw : w.Sound) {i : Identity} {n : NewNode} (h : lastDeclared? statements i = some n)
    {m : Node} (hm : m ∈ (applyAll o w statements).graph.nodes) (hi : m.identity = i) : m = n.stored m.id := by
  induction statements using List.reverseRecOn with
  | nil => exact absurd h (by simp [lastDeclared?])
  | append_singleton statements s ih =>
      have hsound := sound_applyAll (o := o) hw statements
      rw [lastDeclared?_append, lastDeclared?_singleton] at h
      rw [applyAll_append] at hm
      cases s with
      | declare k =>
          rcases (Graph.mem_upsertNode hsound.graph k m).1 hm with heq | ⟨hm, hne⟩
          · have hk : k.identity = i := by rw [← hi, heq, NewNode.stored_identity]
            rw [Statement.declared?, if_pos hk, Option.some_or, Option.some.injEq] at h
            rw [← h, heq, NewNode.stored_id]
          · have hk : k.identity ≠ i := fun hk => hne (hi.trans hk.symm)
            rw [Statement.declared?, if_neg hk, Option.none_or] at h
            exact ih h hm
      | relate l locations metadata =>
          rw [Statement.declared?, Option.none_or] at h
          rcases Graph.mem_withEnds hsound.graph (Graph.relate_nodes ▸ hm) with hm | ⟨hnew, _⟩
          · exact ih h hm
          · refine absurd ?_ hnew
            obtain ⟨k, hk, hki⟩ := declares_of_lastDeclared h
            exact (has_applyAll hw statements _).2 (Or.inr ⟨_, hk, hi.trans hki.symm⟩)

/-- The edge of a link is as the link was stated last. -/
theorem worded_of_lastRelated (hw : w.Sound) {l : Link} {locations : List String} {metadata : Json}
    (h : lastRelated? statements l = some (locations, metadata)) {e : Edge}
    (he : e ∈ (applyAll o w statements).graph.edges) (hjoin : (applyAll o w statements).graph.Joins e l) :
    e.Worded o locations metadata := by
  induction statements using List.reverseRecOn with
  | nil => exact absurd h (by simp [lastRelated?])
  | append_singleton statements s ih =>
      have hsound := sound_applyAll (o := o) hw statements
      have hback : ∀ e ∈ (applyAll o w statements).graph.edges, (applyAll o w (statements ++ [s])).graph.Joins e l →
          (applyAll o w statements).graph.Joins e l := by
        intro e he hjoin
        rw [applyAll_append] at hjoin
        exact (joins_applyAll hsound [s] he l).1 hjoin
      rw [lastRelated?_append, lastRelated?_singleton] at h
      cases s with
      | declare k =>
          rw [Statement.related?, Option.none_or] at h
          have he' : e ∈ (applyAll o w statements).graph.edges := by
            rw [applyAll_append, applyAll_cons, applyAll_nil, apply_declare_graph, Graph.upsertNode_edges] at he
            exact he
          exact ih h he' (hback e he' hjoin)
      | relate k locations' metadata' =>
          have he' : e ∈ ((applyAll o w statements).graph.relate o k locations' metadata').1.edges := by
            rw [applyAll_append] at he
            exact he
          have hjoin' : ((applyAll o w statements).graph.relate o k locations' metadata').1.Joins e l := by
            rw [applyAll_append] at hjoin
            exact hjoin
          have hwf : ((applyAll o w statements).graph.relate o k locations' metadata').1.WellFormed :=
            hsound.graph.relate
          rcases Graph.mem_relate_cases hsound.graph he' with ⟨hworded, hk, _⟩ | ⟨he₀, hk⟩
          · rw [Statement.related?, if_pos (hk.link_eq hwf hjoin'), Option.some_or, Option.some.injEq,
              Prod.mk.injEq] at h
            rw [← h.1, ← h.2]
            exact hworded
          · have hne : k ≠ l := fun hkl => hk (hkl ▸ hjoin')
            rw [Statement.related?, if_neg hne, Option.none_or] at h
            exact ih h he₀ (hback e he₀ hjoin)

/-- An edge that the origin holds already keeps its holders. -/
theorem holders_applyAll (hw : w.Sound) (statements : List Statement) {e f : Edge} (he : e ∈ w.graph.edges)
    (hheld : Edge.insertHolder o e.holders = e.holders) (hf : f ∈ (applyAll o w statements).graph.edges)
    (hi : f.identity = e.identity) : f.holders = e.holders := by
  induction statements using List.reverseRecOn generalizing f with
  | nil => rw [hw.graph.edge_eq_of_identity hf he hi]
  | append_singleton statements s ih =>
      have hsound := sound_applyAll (o := o) hw statements
      rw [applyAll_append] at hf
      cases s with
      | declare k =>
          rw [applyAll_cons, applyAll_nil, apply_declare_graph, Graph.upsertNode_edges] at hf
          exact ih hf hi
      | relate k locations metadata =>
          rcases Graph.mem_relate_cases hsound.graph hf with ⟨_, _, hholders⟩ | ⟨hf, _⟩
          · obtain ⟨l, hjoin⟩ := hw.graph.exists_joins he
            obtain ⟨e₁, he₁, _, hjoin₁⟩ := exists_mem_applyAll (o := o) hw statements he hjoin
            have hi₁ : e₁.identity = e.identity := by
              have hjoin' := (joins_applyAll hw statements he l (o := o)).2 hjoin
              simp only [Edge.identity, hjoin₁.1, hjoin'.1, hjoin₁.2.1.id_eq hsound.graph hjoin'.2.1,
                hjoin₁.2.2.id_eq hsound.graph hjoin'.2.2]
            rw [hholders e₁ he₁ (hi₁.trans hi.symm), ih he₁ hi₁, hheld]
          · exact ih hf hi

/-! ## After a whole unit -/

section

variable {c : Catalog} {g : Graph} {cache : BuildCache} {previous : List Node}

/-- A node that a unit declares is as it was written, at the end of the unit. -/
theorem mem_applyAll_of_declares (hw : (start o g cache).Sound) (hp : previous.Sublist g.nodes) {m : Node}
    (hm : m ∈ (unit c o g cache previous statements).graph.nodes) (hdeclares : Declares statements m.identity) :
    m ∈ (applyAll o (start o g cache) statements).graph.nodes := by
  have hsound := sound_applyAll (o := o) hw statements
  have hlists := lists_applyAll hw hp statements
  rw [unit, prune_eq] at hm
  have hshrinks := shrinks_settleAll (sound_releaseStale hsound o).graph c o hlists
  -- its name was given by the writes, so it is touched
  have hname := (Graph.names_releaseAll _ _ _ _ _).1 (hshrinks.names _ _ (Graph.names_of_mem hm))
  have htouched : m.id ∈ (applyAll o (start o g cache) statements).touched :=
    (mem_touched_applyAll hw statements m.id).2 (Or.inr ⟨_, hdeclares, hname⟩)
  cases remains_settleAll (sound_releaseStale hsound o) c o hlists hm with
  | kept mem _ =>
      change m ∈ ((applyAll o (start o g cache) statements).graph.releaseAll _ o).nodes at mem
      rw [Graph.releaseAll_nodes] at mem
      exact mem
  | moved _ _ _ _ _ _ untouched => exact absurd htouched untouched
  | demoted _ _ _ untouched => exact absurd htouched untouched

theorem stored_unit (hw : (start o g cache).Sound) (hp : previous.Sublist g.nodes) {i : Identity} {n : NewNode}
    (h : lastDeclared? statements i = some n) {m : Node}
    (hm : m ∈ (unit c o g cache previous statements).graph.nodes) (hi : m.identity = i) : m = n.stored m.id := by
  have hdeclares := declares_of_lastDeclared h
  rw [← hi] at hdeclares
  exact stored_of_lastDeclared hw h (mem_applyAll_of_declares hw hp hm hdeclares) hi

/-- An edge that a unit states is as it was written, at the end of the unit. -/
theorem mem_applyAll_of_relates (hw : (start o g cache).Sound) (hp : previous.Sublist g.nodes) {e : Edge}
    (he : e ∈ (unit c o g cache previous statements).graph.edges) {l : Link}
    (hjoin : (unit c o g cache previous statements).graph.Joins e l) (hrelates : Relates statements l) :
    e ∈ (applyAll o (start o g cache) statements).graph.edges ∧
      (applyAll o (start o g cache) statements).graph.Joins e l := by
  have hsound := sound_applyAll (o := o) hw statements
  have hend := steady_unit hw hp c statements
  rw [hend.edges] at he
  rw [hend.joins e he] at hjoin
  have hjoin₁ := (Graph.joins_releaseAll _ _ _ _ _).1 hjoin
  rcases (Graph.mem_releaseAll hsound.graph _ o e).1 he with ⟨he, _⟩ | ⟨f, hf, hstale, hrel⟩
  · exact ⟨he, hjoin₁⟩
  · obtain ⟨_, hi, _⟩ := Edge.released_eq_some hrel
    have hjoinf := (Graph.joins_congr hi l).1 hjoin₁
    exact absurd hrelates ((mem_stale_applyAll hw statements hf hjoinf).1 hstale).2

theorem worded_unit (hw : (start o g cache).Sound) (hp : previous.Sublist g.nodes) {l : Link}
    {locations : List String} {metadata : Json} (h : lastRelated? statements l = some (locations, metadata)) {e : Edge}
    (he : e ∈ (unit c o g cache previous statements).graph.edges)
    (hjoin : (unit c o g cache previous statements).graph.Joins e l) : e.Worded o locations metadata := by
  obtain ⟨he, hjoin⟩ := mem_applyAll_of_relates hw hp he hjoin ⟨_, _, mem_of_lastRelated h⟩
  exact worded_of_lastRelated hw h he hjoin

end

end Projection

end CodeAtlas
