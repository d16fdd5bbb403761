import CodeAtlas.Proofs.Projection.Provenance
import CodeAtlas.Schema.Stored
/-!
# The schema and its nodes

The graph mirrors a schema if it has a node for each of its tables, columns and indexes, and no other nodes of these
kinds. The unit of a file leaves such nodes alone: none of them is anchored, and no file refers to one
(`mirrors_fileUnit`). The unit of the schema writes all nodes anew that the schema describes. The others lose their last
edge, because nobody but the schema holds edges at them, and so they are deleted (`mirrors_schemaUnit`).
-/

namespace CodeAtlas.Projection

open CodeAtlas.Schema

/-- A schema has the table, column or index that an identity stands for. -/
inductive Describes (s : Schema) : Identity → Prop
  | table (t : Table) (mem : t ∈ s.tables) : Describes s (.table, t.name)
  | column (t : Table) (c : Column) (mem : t ∈ s.tables) (here : c ∈ t.columns) :
      Describes s (.column, columnKey t.name c.name)
  | index (i : Index) (mem : i ∈ s.indexes) : Describes s (.index, i.name)

/-- The nodes of the schema's kinds are those that a schema describes. All of them come from the schema, and nobody else
holds an edge at one. -/
structure Mirrors (s : Schema) (g : Graph) : Prop where
  owned : ∀ n ∈ g.nodes, n.kind.isSchema = true → n.source = .fromSchema ∧ n.anchor = none
  held : ∀ l x, g.Holds l x → l.source.1.isSchema = true ∨ l.target.1.isSchema = true → x = Schema.origin
  keys : ∀ i : Identity, i.1.isSchema = true → (g.Has i ↔ Describes s i)

theorem not_describes_empty (i : Identity) : ¬ Describes {} i := by
  intro h
  cases h with
  | table t mem => exact absurd mem (by simp)
  | column t c mem => exact absurd mem (by simp)
  | index i mem => exact absurd mem (by simp)

theorem mirrors_of_empty {g : Graph} (hnodes : g.nodes = []) (hedges : g.edges = []) : Mirrors {} g := by
  refine ⟨?_, ?_, ?_⟩
  · intro n hn
    exact absurd hn (by simp [hnodes])
  · rintro l x ⟨e, he, _⟩
    exact absurd he (by simp [hedges])
  · intro i _
    refine iff_of_false ?_ (not_describes_empty i)
    rintro ⟨id, n, hn, _⟩
    exact absurd hn (by simp [hnodes])

/-! ## What a schema declares -/

section

variable {s : Schema} {known : String → Bool}

theorem mem_tableNames {name : String} : name ∈ s.tableNames ↔ ∃ t ∈ s.tables, t.name = name := List.mem_map

theorem declare_mem_schemaStatements {n : NewNode} :
    Statement.declare n ∈ schemaStatements s known ↔
      (∃ t ∈ s.tables, n = tableNode t) ∨ (∃ t ∈ s.tables, ∃ c ∈ t.columns, n = columnNode t c) ∨
        ∃ i ∈ s.indexes, i.table ∈ s.tableNames ∧ n = indexNode i := by
  have hbacking : ∀ t, Statement.declare n ∉ backingStatements known t := by
    intro t h
    unfold backingStatements at h
    split at h <;> exact absurd h (by simp)
  have hkeys : ∀ k, Statement.declare n ∉ foreignKeyStatements (columnKeys s.tables) s.tableNames k := by
    intro k h
    unfold foreignKeyStatements at h
    split at h <;> exact absurd h (by simp)
  have hindex : ∀ i, Statement.declare n ∈ indexStatements s.tableNames i ↔
      i.table ∈ s.tableNames ∧ n = indexNode i := by
    intro i
    unfold indexStatements
    split
    · next h => simp [h]
    · next h => simp [h]
  simp only [schemaStatements, contentStatements, columnStatements, List.mem_append, List.mem_map, List.mem_flatMap,
    List.mem_cons, hbacking, hkeys, hindex, Statement.declare.injEq, reduceCtorEq, and_false, exists_false, or_false,
    false_or]
  simp only [eq_comm]

theorem mem_lastIndexes {indexes : List Index} {i : Index} (h : i ∈ lastIndexes indexes) : i ∈ indexes := by
  induction indexes with
  | nil => exact h
  | cons j rest ih =>
      rw [lastIndexes] at h
      split at h
      · exact List.mem_cons_of_mem _ (ih h)
      · rcases List.mem_cons.1 h with rfl | h
        · exact List.mem_cons_self
        · exact List.mem_cons_of_mem _ (ih h)

/-- Of the indexes with one name, one is kept. -/
theorem exists_mem_lastIndexes {indexes : List Index} {i : Index} (h : i ∈ indexes) :
    ∃ j ∈ lastIndexes indexes, j.name = i.name := by
  induction indexes generalizing i with
  | nil => exact absurd h (by simp)
  | cons first rest ih =>
      rw [lastIndexes]
      split
      · next hlater =>
          rcases List.mem_cons.1 h with rfl | h
          · obtain ⟨later, hmem, heq⟩ := List.any_eq_true.1 hlater
            simp only [Bool.and_eq_true, decide_eq_true_eq] at heq
            rw [← heq.2]
            exact ih hmem
          · exact ih h
      · rcases List.mem_cons.1 h with rfl | h
        · exact ⟨i, List.mem_cons_self, rfl⟩
        · obtain ⟨j, hj, hname⟩ := ih h
          exact ⟨j, List.mem_cons_of_mem _ hj, hname⟩

/-- A schema declares the nodes of what is stored of it. -/
theorem declares_schemaStatements (s : Schema) (known : String → Bool) (i : Identity) :
    Declares (schemaStatements s known) i ↔ Describes s.stored i := by
  constructor
  · rintro ⟨n, hn, rfl⟩
    rcases declare_mem_schemaStatements.1 hn with ⟨t, ht, rfl⟩ | ⟨t, ht, c, hc, rfl⟩ | ⟨j, hj, htable, rfl⟩
    · exact .table t ht
    · exact .column t c ht hc
    · have hkept : j ∈ s.indexes.filter fun i => (s.table? i.table).isSome :=
        List.mem_filter.2 ⟨hj, (table?_isSome_iff _).2 htable⟩
      obtain ⟨k, hk, hname⟩ := exists_mem_lastIndexes hkept
      change Describes s.stored (.index, j.name)
      rw [← hname]
      exact .index k hk
  · intro h
    cases h with
    | table t mem => exact ⟨_, declare_mem_schemaStatements.2 (Or.inl ⟨t, mem, rfl⟩), rfl⟩
    | column t c mem here =>
        exact ⟨_, declare_mem_schemaStatements.2 (Or.inr (Or.inl ⟨t, mem, c, here, rfl⟩)), rfl⟩
    | index j mem =>
        obtain ⟨hj, htable⟩ := List.mem_filter.1 (mem_lastIndexes mem)
        exact ⟨_, declare_mem_schemaStatements.2 (Or.inr (Or.inr ⟨j, hj, (table?_isSome_iff _).1 htable, rfl⟩)), rfl⟩

theorem declares_table {name : String} (h : name ∈ s.tableNames) :
    Declares (schemaStatements s known) (.table, name) := by
  obtain ⟨t, ht, rfl⟩ := mem_tableNames.1 h
  exact (declares_schemaStatements s known _).2 (.table t ht)

theorem declares_column {key : String} (h : key ∈ columnKeys s.tables) :
    Declares (schemaStatements s known) (.column, key) := by
  simp only [columnKeys, List.mem_flatMap, List.mem_map] at h
  obtain ⟨t, ht, c, hc, rfl⟩ := h
  exact (declares_schemaStatements s known _).2 (.column t c ht hc)

/-- Where a schema relates a table, column or index, it declares it too. -/
theorem declares_of_relates {l : Link} (h : Relates (schemaStatements s known) l) {i : Identity}
    (hend : i = l.source ∨ i = l.target) (hkind : i.1.isSchema = true) : Declares (schemaStatements s known) i := by
  obtain ⟨locations, metadata, h⟩ := h
  simp only [schemaStatements, contentStatements, columnStatements, backingStatements, foreignKeyStatements,
    indexStatements, List.mem_append, List.mem_map, List.mem_flatMap, reduceCtorEq, and_false, exists_false,
    false_or] at h
  rcases h with ⟨t, ht, ⟨c, hc, h⟩ | h⟩ | ⟨k, _, h⟩ | ⟨j, hj, h⟩
  · have hcolumn : Declares (schemaStatements s known) (.column, columnKey t.name c.name) :=
      declares_column (List.mem_flatMap.2 ⟨t, ht, List.mem_map.2 ⟨c, hc, rfl⟩⟩)
    simp only [List.mem_cons, List.mem_map, Option.mem_toList, reduceCtorEq, false_or, Statement.relate.injEq] at h
    rcases h with ⟨rfl, _, _⟩ | ⟨target, htarget, rfl, _, _⟩
    · rcases hend with rfl | rfl
      · exact declares_table (mem_tableNames.2 ⟨t, ht, rfl⟩)
      · exact hcolumn
    · rcases hend with rfl | rfl
      · exact hcolumn
      · obtain ⟨stem, _, hinfer⟩ := Option.bind_eq_some_iff.1 htarget
        exact declares_table (inferTable?_mem hinfer)
  · split at h
    · simp only [List.mem_singleton, Statement.relate.injEq] at h
      obtain ⟨rfl, _, _⟩ := h
      rcases hend with rfl | rfl
      · exact absurd hkind (by simp [NodeKind.isSchema])
      · exact declares_table (mem_tableNames.2 ⟨t, ht, rfl⟩)
    · exact absurd h (by simp)
  · split at h
    · next hknown =>
        simp only [List.mem_singleton, Statement.relate.injEq] at h
        obtain ⟨rfl, _, _⟩ := h
        rcases hend with rfl | rfl
        · exact declares_column hknown.1
        · exact declares_table hknown.2
    · exact absurd h (by simp)
  · split at h
    · next htable =>
        simp only [List.mem_cons, reduceCtorEq, false_or, List.not_mem_nil, or_false, Statement.relate.injEq] at h
        obtain ⟨rfl, _, _⟩ := h
        rcases hend with rfl | rfl
        · exact declares_table htable
        · exact ⟨_, declare_mem_schemaStatements.2 (Or.inr (Or.inr ⟨j, hj, htable, rfl⟩)), rfl⟩
    · exact absurd h (by simp)

end

/-! ## The unit of a file -/

section

variable {g : Graph} {cache : BuildCache} {c : Catalog} {path : String} {statements : List Statement} {s : Schema}

/-- The statements speak of no table, column or index. -/
structure ApartFromSchema (statements : List Statement) : Prop where
  nodes : ∀ i, Declares statements i → i.1.isSchema = false
  links : ∀ l, Relates statements l → l.source.1.isSchema = false ∧ l.target.1.isSchema = false

theorem apartFromSchema_nil : ApartFromSchema [] :=
  ⟨fun _ ⟨_, h, _⟩ => absurd h (by simp), fun _ ⟨_, _, h⟩ => absurd h (by simp)⟩

theorem nodeOf?_isSchema {d : Declaration} {i : Identity} (h : nodeOf? d = some i) : i.1.isSchema = false := by
  unfold nodeOf? at h
  cases hk : d.kind <;> rw [hk] at h <;> simp only [Option.some.injEq, reduceCtorEq] at h <;> subst h <;> rfl

theorem apartFromSchema_fileStatements {category : Category} {o : Outline} {built : Identity → Bool}
    {known : String → Bool} : ApartFromSchema (fileStatements path category o built known) := by
  refine ⟨?_, ?_⟩
  · rintro i ⟨n, hn, rfl⟩
    cases declare_mem_fileStatements.1 hn with
    | file => rfl
    | declaration d i mem node => exact nodeOf?_isSchema node
  · rintro l ⟨locations, metadata, h⟩
    cases fileLink_of_mem h with
    | defines d i mem node => exact ⟨rfl, nodeOf?_isSchema node⟩
    | owns d owner i mem node kind =>
        refine ⟨?_, nodeOf?_isSchema node⟩
        rcases kind with kind | kind <;> rw [kind] <;> rfl
    | inherits d name i mem node => exact ⟨nodeOf?_isSchema node, rfl⟩
    | mixes kind name mixin =>
        refine ⟨?_, rfl⟩
        cases hfirst : containerIn? o.declarations with
        | none => rfl
        | some i =>
            obtain ⟨d, _, hd⟩ := Option.bind_eq_some_iff.1 hfirst
            exact nodeOf?_isSchema hd
    | requires target => exact ⟨rfl, rfl⟩
    | associates a owner first =>
        obtain ⟨d, _, hd⟩ := Option.bind_eq_some_iff.1 first
        exact ⟨nodeOf?_isSchema hd, rfl⟩

/-- The unit of a file leaves the nodes of the schema alone. -/
theorem mem_of_mem_fileUnit (hw : (start path g cache).Sound) (hapart : ApartFromSchema statements)
    (h : Mirrors s g) {m : Node} (hm : m ∈ (unit c path g cache (g.anchoredTo path) statements).graph.nodes)
    (hkind : m.kind.isSchema = true) : m ∈ g.nodes := by
  cases emerges_unit hw List.filter_sublist hm with
  | declared n mem stored =>
      have hother := hapart.nodes m.identity ⟨n, mem, by rw [stored, NewNode.stored_identity]⟩
      exact absurd (hkind.symm.trans hother) (by simp)
  | kept mem _ _ => exact mem
  | referred _ _ _ l related atEnd =>
      obtain ⟨hsource, htarget⟩ := hapart.links l related
      rcases atEnd with heq | heq
      · rw [← heq] at hsource
        exact absurd (hkind.symm.trans hsource) (by simp)
      · rw [← heq] at htarget
        exact absurd (hkind.symm.trans htarget) (by simp)
  | moved _ _ _ _ _ kind _ _ _ _ _ _ =>
      rw [(definingKind?_of_isSchema hkind).1] at kind
      exact absurd kind (by simp)
  | demoted n mem own _ _ _ eq =>
      obtain ⟨a, ha, _⟩ := (mem_anchoredTo hw.graph mem path).1 own
      rw [eq] at hkind
      rw [(h.owned n mem hkind).2] at ha
      exact absurd ha (by simp)

theorem mirrors_fileUnit (hw : (start path g cache).Sound) (c : Catalog) (hapart : ApartFromSchema statements)
    (h : Mirrors s g) : Mirrors s (unit c path g cache (g.anchoredTo path) statements).graph := by
  have hp : (g.anchoredTo path).Sublist g.nodes := List.filter_sublist
  refine ⟨fun m hm hkind => h.owned m (mem_of_mem_fileUnit hw hapart h hm hkind) hkind, ?_, ?_⟩
  · intro l x hx hend
    rcases (holds_unit hw hp c statements l x).1 hx with ⟨_, hx⟩ | ⟨_, hrel⟩
    · exact h.held l x hx hend
    · obtain ⟨hsource, htarget⟩ := hapart.links l hrel
      rcases hend with hend | hend
      · exact absurd (hend.symm.trans hsource) (by simp)
      · exact absurd (hend.symm.trans htarget) (by simp)
  · intro i hi
    rw [← h.keys i hi]
    constructor
    · rintro ⟨id, m, hm, hid, rfl⟩
      exact ⟨id, m, mem_of_mem_fileUnit hw hapart h hm hi, hid, rfl⟩
    · rintro ⟨id, n, hn, rfl, rfl⟩
      refine ⟨n.id, names_unit hw hp c statements (Graph.names_of_mem hn) ?_⟩
      intro hown
      obtain ⟨a, ha, _⟩ := (mem_anchoredTo hw.graph hn path).1 hown
      rw [(h.owned n hn hi).2] at ha
      exact absurd ha (by simp)

end

/-! ## The unit of the schema -/

section

variable {g : Graph} {cache : BuildCache} {c : Catalog} {known : String → Bool} {s before : Schema}

theorem held_schemaUnit (hw : (start Schema.origin g cache).Sound) (c : Catalog) (statements : List Statement)
    (h : Mirrors before g) {l : Link} {x : String}
    (hx : (unit c Schema.origin g cache (g.bySource .fromSchema) statements).graph.Holds l x)
    (hend : l.source.1.isSchema = true ∨ l.target.1.isSchema = true) : x = Schema.origin := by
  rcases (holds_unit hw List.filter_sublist c statements l x).1 hx with ⟨_, hx⟩ | ⟨heq, _⟩
  · exact h.held l x hx hend
  · exact heq

/-- A table, column or index at which there is an edge after the unit of a schema is declared by that schema. -/
theorem declares_of_isReferenced (hw : (start Schema.origin g cache).Sound) (hheld : g.AllHeld) (h : Mirrors before g)
    {m : Node} (hm : m ∈ (unit c Schema.origin g cache (g.bySource .fromSchema) (schemaStatements s known)).graph.nodes)
    (hkind : m.kind.isSchema = true)
    (href : (unit c Schema.origin g cache (g.bySource .fromSchema) (schemaStatements s known)).graph.isReferenced m.id =
      true) : Declares (schemaStatements s known) m.identity := by
  have hp : (g.bySource .fromSchema).Sublist g.nodes := List.filter_sublist
  have hsound := sound_unit hw hp c (schemaStatements s known)
  obtain ⟨e, he, hat⟩ := (Graph.isReferenced_iff _ _).1 href
  obtain ⟨l, hjoin⟩ := hsound.graph.exists_joins he
  obtain ⟨x, hx⟩ := allHeld_unit hw hp c (schemaStatements s known) hheld e he
  have hend : m.identity = l.source ∨ m.identity = l.target := by
    have hname := Graph.names_of_mem hm
    rcases hat with hat | hat
    · rw [← hat] at hname
      exact Or.inl (hname.identity_eq hsound.graph hjoin.2.1)
    · rw [← hat] at hname
      exact Or.inr (hname.identity_eq hsound.graph hjoin.2.2)
  have hschema : l.source.1.isSchema = true ∨ l.target.1.isSchema = true := by
    rcases hend with heq | heq
    · exact Or.inl (by rw [← heq]; exact hkind)
    · exact Or.inr (by rw [← heq]; exact hkind)
  -- nobody but the schema holds the edge, so the schema relates its ends
  have horigin := held_schemaUnit hw c _ h ⟨e, he, hjoin, hx⟩ hschema
  rcases (holds_unit hw hp c _ l x).1 ⟨e, he, hjoin, hx⟩ with ⟨hne, _⟩ | ⟨_, hrel⟩
  · exact absurd horigin hne
  · exact declares_of_relates hrel hend hkind

/-- A table, column or index that is there after the unit of a schema was written by it. -/
theorem declared_of_mem_schemaUnit (hw : (start Schema.origin g cache).Sound) (hheld : g.AllHeld) (h : Mirrors before g)
    {m : Node} (hm : m ∈ (unit c Schema.origin g cache (g.bySource .fromSchema) (schemaStatements s known)).graph.nodes)
    (hkind : m.kind.isSchema = true) : ∃ n, Statement.declare n ∈ schemaStatements s known ∧ m = n.stored m.id := by
  cases emerges_unit hw List.filter_sublist hm with
  | declared n mem stored => exact ⟨n, mem, stored⟩
  | kept mem _ other => exact absurd ((mem_bySource hw.graph mem _).2 (h.owned m mem hkind).1) other
  | referred _ undeclared _ l related atEnd => exact absurd (declares_of_relates related atEnd hkind) undeclared
  | moved _ _ _ _ _ kind _ _ _ _ _ _ =>
      rw [(definingKind?_of_isSchema hkind).1] at kind
      exact absurd kind (by simp)
  | demoted _ _ _ undeclared _ referenced _ =>
      exact absurd (declares_of_isReferenced hw hheld h hm hkind referenced) undeclared

theorem mirrors_schemaUnit (hw : (start Schema.origin g cache).Sound) (c : Catalog) (hheld : g.AllHeld)
    (h : Mirrors before g) :
    Mirrors s.stored (unit c Schema.origin g cache (g.bySource .fromSchema) (schemaStatements s known)).graph := by
  refine ⟨?_, fun l x hx hend => held_schemaUnit hw c _ h hx hend, ?_⟩
  · intro m hm hkind
    obtain ⟨n, hn, hstored⟩ := declared_of_mem_schemaUnit hw hheld h hm hkind
    have hnode := schemaNode_of_mem hn
    rw [hstored]
    exact ⟨hnode.source, hnode.anchor⟩
  · intro i hi
    rw [← declares_schemaStatements s known]
    constructor
    · rintro ⟨id, m, hm, _, rfl⟩
      obtain ⟨n, hn, hstored⟩ := declared_of_mem_schemaUnit hw hheld h hm hi
      exact ⟨n, hn, by rw [hstored, NewNode.stored_identity]⟩
    · exact has_unit_of_declares hw List.filter_sublist c

end

end CodeAtlas.Projection
