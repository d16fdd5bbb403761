import CodeAtlas.Proofs.Inflection
import CodeAtlas.Proofs.Json.Lookup
import CodeAtlas.Proofs.Projection.LastWord
import CodeAtlas.Proofs.Projection.Mirroring
import CodeAtlas.Proofs.Schema.Reading
/-!
# The edges of a schema

Once a schema is projected, the schema holds exactly the edges that it draws (`SchemaEdge`): from a table to its columns
and indexes, from a model class that is there to its table, and from a column to the tables that it refers to, by its
name or by a foreign key. A foreign key has the last word, so that a reference is marked as explicit exactly if a
foreign key declares it (`holds_projectSchema_iff`).
-/

namespace CodeAtlas

namespace Projection

open CodeAtlas.Schema CodeAtlas.Inflection

/-- A foreign key declares that the column with the key `column` refers to `table`. -/
def DeclaresReference (s : Schema) (column table : String) : Prop :=
  ∃ k ∈ s.foreignKeys, columnKey k.fromTable k.fromColumn = column ∧ k.toTable = table

/-- The links that a schema draws in a graph. -/
inductive SchemaEdge (s : Schema) (g : Graph) : Link → Prop
  | hasColumn (t : Table) (c : Column) (table : t ∈ s.tables) (column : c ∈ t.columns) :
      SchemaEdge s g ⟨.hasColumn, (.table, t.name), (.column, columnKey t.name c.name)⟩
  | inferred (t : Table) (c : Column) (stem target : String) (table : t ∈ s.tables) (column : c ∈ t.columns)
      (named : c.name = stem ++ "_id") (nonempty : stem ≠ "") (infers : inferTable? stem s.tableNames = some target) :
      SchemaEdge s g ⟨.references, (.column, columnKey t.name c.name), (.table, target)⟩
  | declared (t : Table) (c : Column) (target : String) (table : t ∈ s.tables) (column : c ∈ t.columns)
      (declares : DeclaresReference s (columnKey t.name c.name) target) (known : target ∈ s.tableNames) :
      SchemaEdge s g ⟨.references, (.column, columnKey t.name c.name), (.table, target)⟩
  | backs (t : Table) (table : t ∈ s.tables) (model : g.Has (.classDecl, classify t.name)) :
      SchemaEdge s g ⟨.backs, (.classDecl, classify t.name), (.table, t.name)⟩
  | hasIndex (i : Index) (mem : i ∈ s.indexes) : SchemaEdge s g ⟨.hasIndex, (.table, i.table), (.index, i.name)⟩

section

variable {s : Schema} {known : String → Bool} {l : Link}

theorem mem_columnKeys {key : String} :
    key ∈ columnKeys s.tables ↔ ∃ t ∈ s.tables, ∃ c ∈ t.columns, columnKey t.name c.name = key := by
  simp [columnKeys, List.mem_flatMap]

/-! ## What the parts of a schema relate -/

theorem relate_mem_columnStatements {names : List String} {t : Table} {c : Column} {locations : List String}
    {metadata : Json} :
    Statement.relate l locations metadata ∈ columnStatements names t c ↔
      (l = ⟨.hasColumn, (.table, t.name), (.column, columnKey t.name c.name)⟩ ∧ locations = [] ∧ metadata = .obj []) ∨
        ∃ target, inferredTarget? names c = some target ∧
          l = ⟨.references, (.column, columnKey t.name c.name), (.table, target)⟩ ∧ locations = [] ∧
            metadata = .obj [("explicit", .bool false)] := by
  simp only [columnStatements, List.mem_cons, List.mem_map, Option.mem_toList, Statement.relate.injEq, reduceCtorEq,
    false_or]
  refine or_congr_right (exists_congr fun target => and_congr_right fun _ => ?_)
  simp only [eq_comm]

theorem relate_mem_backingStatements {t : Table} {locations : List String} {metadata : Json} :
    Statement.relate l locations metadata ∈ backingStatements known t ↔
      known (classify t.name) = true ∧ l = ⟨.backs, (.classDecl, classify t.name), (.table, t.name)⟩ ∧
        locations = [] ∧ metadata = .obj [] := by
  unfold backingStatements
  split
  · next h => simp [h]
  · next h => simp [h]

/-- What foreign keys relate is marked as explicit. -/
theorem relate_mem_foreignKeyStatements {columns tables : List String} {k : ForeignKey} {locations : List String}
    {metadata : Json} :
    Statement.relate l locations metadata ∈ foreignKeyStatements columns tables k ↔
      columnKey k.fromTable k.fromColumn ∈ columns ∧ k.toTable ∈ tables ∧
        l = ⟨.references, (.column, columnKey k.fromTable k.fromColumn), (.table, k.toTable)⟩ ∧ locations = [] ∧
        metadata = .record [
          ("explicit", .bool true), ("to_column", .str k.toColumn), ("on_delete", .optStr k.onDelete),
          ("on_update", .optStr k.onUpdate), ("name", .optStr k.name)] := by
  unfold foreignKeyStatements
  split
  · next h => simp [h]
  · next h =>
      simp only [List.not_mem_nil, false_iff]
      exact fun h' => h ⟨h'.1, h'.2.1⟩

theorem relate_mem_indexStatements {tables : List String} {i : Index} {locations : List String} {metadata : Json} :
    Statement.relate l locations metadata ∈ indexStatements tables i ↔
      i.table ∈ tables ∧ l = ⟨.hasIndex, (.table, i.table), (.index, i.name)⟩ ∧ locations = [] ∧
        metadata = .obj [] := by
  unfold indexStatements
  split
  · next h => simp [h]
  · next h => simp [h]

/-- The links that a schema relates, in the words in which it does so. -/
theorem relate_mem_schemaStatements {locations : List String} {metadata : Json} :
    Statement.relate l locations metadata ∈ schemaStatements s known ↔
      (∃ t ∈ s.tables, (∃ c ∈ t.columns,
          Statement.relate l locations metadata ∈ columnStatements s.tableNames t c) ∨
        Statement.relate l locations metadata ∈ backingStatements known t) ∨
      (∃ k ∈ s.foreignKeys,
        Statement.relate l locations metadata ∈ foreignKeyStatements (columnKeys s.tables) s.tableNames k) ∨
      ∃ i ∈ s.indexes, Statement.relate l locations metadata ∈ indexStatements s.tableNames i := by
  simp only [schemaStatements, contentStatements, List.mem_append, List.mem_map, List.mem_flatMap, reduceCtorEq,
    and_false, exists_false, false_or]

/-- A schema relates exactly the links that it draws. -/
theorem relates_schemaStatements_iff {g : Graph} (hs : s.WellFormed)
    (hknown : ∀ c, g.Has (.classDecl, c) ↔ known c = true) :
    Relates (schemaStatements s known) l ↔ SchemaEdge s g l := by
  simp only [Relates, relate_mem_schemaStatements, relate_mem_columnStatements, relate_mem_backingStatements,
    relate_mem_foreignKeyStatements, relate_mem_indexStatements]
  constructor
  · rintro ⟨locations, metadata, ⟨t, ht, ⟨c, hc, h⟩ | ⟨hmodel, rfl, _⟩⟩ | ⟨k, hk, hcolumn, htable, rfl, _⟩ |
      ⟨i, hi, _, rfl, _⟩⟩
    · rcases h with ⟨rfl, _⟩ | ⟨target, htarget, rfl, _⟩
      · exact .hasColumn t c ht hc
      · obtain ⟨stem, hstem, hinfer⟩ := Option.bind_eq_some_iff.1 htarget
        obtain ⟨hnamed, hne⟩ := idStem?_eq_some_iff.1 hstem
        exact .inferred t c stem target ht hc hnamed hne hinfer
    · exact .backs t ht ((hknown _).2 hmodel)
    · obtain ⟨t, ht, c, hc, hkey⟩ := mem_columnKeys.1 hcolumn
      rw [← hkey]
      exact .declared t c k.toTable ht hc ⟨k, hk, hkey.symm, rfl⟩ htable
    · exact .hasIndex i hi
  · intro h
    cases h with
    | hasColumn t c ht hc => exact ⟨_, _, Or.inl ⟨t, ht, Or.inl ⟨c, hc, Or.inl ⟨rfl, rfl, rfl⟩⟩⟩⟩
    | inferred t c stem target ht hc hnamed hne hinfer =>
        have htarget : inferredTarget? s.tableNames c = some target :=
          Option.bind_eq_some_iff.2 ⟨stem, idStem?_eq_some_iff.2 ⟨hnamed, hne⟩, hinfer⟩
        exact ⟨_, _, Or.inl ⟨t, ht, Or.inl ⟨c, hc, Or.inr ⟨target, htarget, rfl, rfl, rfl⟩⟩⟩⟩
    | declared t c target ht hc hdeclares htable =>
        obtain ⟨k, hk, hkey, rfl⟩ := hdeclares
        have hcolumn := mem_columnKeys.2 ⟨t, ht, c, hc, rfl⟩
        rw [← hkey] at hcolumn ⊢
        exact ⟨_, _, Or.inr (Or.inl ⟨k, hk, hcolumn, htable, rfl, rfl, rfl⟩)⟩
    | backs t ht hmodel => exact ⟨_, _, Or.inl ⟨t, ht, Or.inr ⟨(hknown _).1 hmodel, rfl, rfl, rfl⟩⟩⟩
    | hasIndex i hi => exact ⟨_, _, Or.inr (Or.inr ⟨i, hi, hs.indexes i hi, rfl, rfl, rfl⟩)⟩

/-! ## Foreign keys have the last word -/

variable {g : Graph} {column table : String}

theorem known_of_references (h : SchemaEdge s g ⟨.references, (.column, column), (.table, table)⟩) :
    column ∈ columnKeys s.tables ∧ table ∈ s.tableNames := by
  cases h with
  | inferred t c stem _ ht hc _ _ hinfer => exact ⟨mem_columnKeys.2 ⟨t, ht, c, hc, rfl⟩, inferTable?_mem hinfer⟩
  | declared t c _ ht hc _ htable => exact ⟨mem_columnKeys.2 ⟨t, ht, c, hc, rfl⟩, htable⟩

/-- What is said last of a reference that a foreign key declares, is said by a foreign key. -/
theorem explicit_of_declares (h : SchemaEdge s g ⟨.references, (.column, column), (.table, table)⟩)
    (hdeclares : DeclaresReference s column table) {locations : List String} {metadata : Json}
    (hlast : lastRelated? (schemaStatements s known) ⟨.references, (.column, column), (.table, table)⟩ =
      some (locations, metadata)) : metadata.canonical.get? "explicit" = some (.bool true) := by
  obtain ⟨hcolumn, htable⟩ := known_of_references h
  obtain ⟨k, hk, rfl, rfl⟩ := hdeclares
  have hkeys : Relates (s.foreignKeys.flatMap (foreignKeyStatements (columnKeys s.tables) s.tableNames))
      ⟨.references, (.column, columnKey k.fromTable k.fromColumn), (.table, k.toTable)⟩ :=
    ⟨_, _, List.mem_flatMap.2 ⟨k, hk, relate_mem_foreignKeyStatements.2 ⟨hcolumn, htable, rfl, rfl, rfl⟩⟩⟩
  have hindexes : ¬ Relates (s.indexes.flatMap (indexStatements s.tableNames))
      ⟨.references, (.column, columnKey k.fromTable k.fromColumn), (.table, k.toTable)⟩ := by
    rintro ⟨_, _, hmem⟩
    obtain ⟨i, _, hi⟩ := List.mem_flatMap.1 hmem
    exact absurd (congrArg Link.kind (relate_mem_indexStatements.1 hi).2.1) (by simp)
  obtain ⟨locations', metadata', hsaid⟩ := exists_lastRelated hkeys
  rw [schemaStatements, lastRelated?_append, lastRelated?_append, lastRelated?_append, lastRelated?_eq_none hindexes,
    Option.none_or, hsaid, Option.some_or, Option.some_or, Option.some.injEq, Prod.mk.injEq] at hlast
  obtain ⟨k', _, hk'⟩ := List.mem_flatMap.1 (mem_of_lastRelated hsaid)
  rw [← hlast.2, (relate_mem_foreignKeyStatements.1 hk').2.2.2.2]
  exact Json.get?_canonical_of_mem (by simp) List.mem_cons_self

theorem not_explicit_of_not_declares (hdeclares : ¬ DeclaresReference s column table) {locations : List String}
    {metadata : Json}
    (hmem : Statement.relate ⟨.references, (.column, column), (.table, table)⟩ locations metadata ∈
      schemaStatements s known) : metadata.canonical.get? "explicit" = some (.bool false) := by
  simp only [relate_mem_schemaStatements, relate_mem_columnStatements, relate_mem_backingStatements,
    relate_mem_foreignKeyStatements, relate_mem_indexStatements] at hmem
  rcases hmem with ⟨t, _, ⟨c, _, ⟨hl, _⟩ | ⟨_, _, _, _, rfl⟩⟩ | ⟨_, hl, _⟩⟩ | ⟨k, hk, _, _, hl, _⟩ | ⟨i, _, _, hl, _⟩
  · exact absurd (congrArg Link.kind hl) (by simp)
  · rfl
  · exact absurd (congrArg Link.kind hl) (by simp)
  · simp only [Link.mk.injEq, Prod.mk.injEq, true_and] at hl
    exact absurd ⟨k, hk, hl.1.symm, hl.2.symm⟩ hdeclares
  · exact absurd (congrArg Link.kind hl) (by simp)

end

/-! ## The whole projection -/

/-- After the schema of a text is projected, in a session that is right about the graph, the schema holds exactly the
edges that it draws, and a reference is marked as explicit exactly if a foreign key declares it. -/
theorem holds_projectSchema_iff {g : Graph} (hg : Reached g) {cache : BuildCache} (hcache : cache.Valid g) (c : Catalog)
    (source : String) :
    let s := Schema.ofSource source
    let result := projectSchema c g cache s
    (∃ stats, result.outcome = .ok stats) ∧
    (∀ l, result.graph.Holds l Schema.origin ↔ SchemaEdge s g l) ∧
    ∀ e ∈ result.graph.edges, Schema.origin ∈ e.holders → ∀ column table,
      result.graph.Joins e ⟨.references, (.column, column), (.table, table)⟩ →
        (e.metadata.get? "explicit" = some (.bool true) ↔ DeclaresReference s column table) ∧
        (e.metadata.get? "explicit" = some (.bool false) ↔ ¬ DeclaresReference s column table) := by
  intro s result
  have hw : (start Schema.origin g cache).Sound := ⟨hg.wellFormed, hcache⟩
  have hp : (g.bySource .fromSchema).Sublist g.nodes := List.filter_sublist
  have hknown : KnowsClasses (start Schema.origin g cache) fun c => (g.nodeId? .classDecl c).isSome :=
    fun c => (Graph.nodeId?_isSome_iff hg.wellFormed _ _).symm
  have hresult : result = _ := runUnit_eq (says_writeSchema hw hknown s)
  have hdraws : ∀ l, Relates (schemaStatements s fun c => (g.nodeId? .classDecl c).isSome) l ↔ SchemaEdge s g l :=
    fun l => relates_schemaStatements_iff (wellFormed_ofSource source) hknown
  have hholds : ∀ l, result.graph.Holds l Schema.origin ↔ SchemaEdge s g l := by
    intro l
    rw [← hdraws, hresult, holds_unit hw hp]
    simp
  refine ⟨?_, hholds, ?_⟩
  · rw [hresult]
    exact ⟨_, rfl⟩
  · intro e he ho column table hjoin
    have hedge := (hholds _).1 ⟨e, he, hjoin, ho⟩
    obtain ⟨locations, metadata, hlast⟩ := exists_lastRelated ((hdraws _).2 hedge)
    rw [hresult] at he hjoin
    rw [(worded_unit hw hp hlast he hjoin).metadata]
    by_cases hdeclares : DeclaresReference s column table
    · simp [explicit_of_declares hedge hdeclares hlast, hdeclares]
    · simp [not_explicit_of_not_declares hdeclares (mem_of_lastRelated hlast), hdeclares]

/-- The graph of a file with one class. -/
def userClass : Graph :=
  ((Change.project "user.rb" .model
    { declarations := [{ name := "User", kind := .classDecl, startLine := 1, endLine := 2 }] }).run {} {}).graph

/-- A table of users who refer to users, and one whose reference is declared. -/
def referringText : String :=
  "create_table \"users\" do |t|\n  t.integer \"user_id\"\nend\n" ++
  "create_table \"posts\" do |t|\n  t.integer \"user_id\"\nend\nadd_foreign_key \"posts\", \"users\"\n"

set_option maxRecDepth 4000 in
theorem holds_projectSchema_iff_referringText :
    let s := Schema.ofSource referringText
    let result := projectSchema {} userClass {} s
    ("User" ∈ s.tableNames.map Inflection.classify ∧ (userClass.nodeId? .classDecl "User").isSome) ∧
    (DeclaresReference s "posts.user_id" "users" ∧ ¬ DeclaresReference s "users.user_id" "users") ∧
    (∃ stats, result.outcome = .ok stats) ∧
    (∀ l, result.graph.Holds l Schema.origin ↔ SchemaEdge s userClass l) ∧
    ∀ e ∈ result.graph.edges, Schema.origin ∈ e.holders → ∀ column table,
      result.graph.Joins e ⟨.references, (.column, column), (.table, table)⟩ →
        (e.metadata.get? "explicit" = some (.bool true) ↔ DeclaresReference s column table) ∧
        (e.metadata.get? "explicit" = some (.bool false) ↔ ¬ DeclaresReference s column table) := by
  have hreached : Reached userClass := .unit .empty {} {} _
  have hfacts :
      ("User" ∈ (Schema.ofSource referringText).tableNames.map Inflection.classify ∧
        (userClass.nodeId? .classDecl "User").isSome) ∧
      (∃ k ∈ (Schema.ofSource referringText).foreignKeys,
        columnKey k.fromTable k.fromColumn = "posts.user_id" ∧ k.toTable = "users") ∧
      ¬ ∃ k ∈ (Schema.ofSource referringText).foreignKeys,
        columnKey k.fromTable k.fromColumn = "users.user_id" ∧ k.toTable = "users" := by
    decide +kernel
  exact ⟨hfacts.1, hfacts.2,
    holds_projectSchema_iff hreached (BuildCache.valid_empty userClass) {} referringText⟩

end Projection

end CodeAtlas
