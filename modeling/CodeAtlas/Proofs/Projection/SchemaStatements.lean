import CodeAtlas.Projection.Schema
import CodeAtlas.Proofs.Projection.Build
/-!
# What a schema says

A schema as a list of statements (`schemaStatements`), and the proof that projecting the schema carries out exactly
these (`says_writeSchema`). The list depends on the state of the graph in one place only: a table is tied to its model
class if that class is there.
-/

namespace CodeAtlas.Projection

open CodeAtlas.Schema CodeAtlas.Inflection

/-- The node of a table. -/
def tableNode (t : Table) : NewNode :=
  { kind := .table, key := t.name, source := .fromSchema
    metadata := .record [
      ("primary_key", .strings t.primaryKey), ("comment", .optStr t.comment), ("columns", .nat t.columns.length)] }

/-- The node of a column. -/
def columnNode (t : Table) (c : Column) : NewNode :=
  { kind := .column, key := columnKey t.name c.name, label := some c.name, source := .fromSchema
    metadata := .record [
      ("table", .str t.name), ("type", .str c.sqlType), ("nullable", .bool c.nullable),
      ("default", .optStr c.defaultText), ("limit", .optInt c.limit), ("primary_key", .bool c.primaryKey)] }

/-- The node of an index. -/
def indexNode (i : Index) : NewNode :=
  { kind := .index, key := i.name, source := .fromSchema
    metadata := .record [
      ("table", .str i.table), ("columns", .strings i.columns), ("unique", .bool i.unique),
      ("where", .optStr i.condition), ("using", .optStr i.accessMethod)] }

/-- The table that the name of a column tells. -/
def inferredTarget? (names : List String) (c : Column) : Option String := (idStem? c.name).bind (inferTable? · names)

/-- What a column says. -/
def columnStatements (names : List String) (t : Table) (c : Column) : List Statement :=
  .declare (columnNode t c) ::
  .relate ⟨.hasColumn, (.table, t.name), (.column, columnKey t.name c.name)⟩ [] (.obj []) ::
  ((inferredTarget? names c).toList.map fun target =>
    .relate ⟨.references, (.column, columnKey t.name c.name), (.table, target)⟩ []
      (.obj [("explicit", .bool false)]))

/-- What a table says of its model class, where `known` are the classes that are there. -/
def backingStatements (known : String → Bool) (t : Table) : List Statement :=
  if known (classify t.name) then
    [.relate ⟨.backs, (.classDecl, classify t.name), (.table, t.name)⟩ [] (.obj [])]
  else []

/-- What a table says of what it holds. -/
def contentStatements (known : String → Bool) (names : List String) (t : Table) : List Statement :=
  t.columns.flatMap (columnStatements names t) ++ backingStatements known t

/-- The keys of the columns of tables. -/
def columnKeys (tables : List Table) : List String :=
  tables.flatMap fun t => t.columns.map fun c => columnKey t.name c.name

/-- What a foreign key says, if its ends are known. -/
def foreignKeyStatements (columns tables : List String) (k : ForeignKey) : List Statement :=
  if columnKey k.fromTable k.fromColumn ∈ columns ∧ k.toTable ∈ tables then
    [.relate ⟨.references, (.column, columnKey k.fromTable k.fromColumn), (.table, k.toTable)⟩ []
      (.record [
        ("explicit", .bool true), ("to_column", .str k.toColumn), ("on_delete", .optStr k.onDelete),
        ("on_update", .optStr k.onUpdate), ("name", .optStr k.name)])]
  else []

/-- What an index says, if its table is known. -/
def indexStatements (tables : List String) (i : Index) : List Statement :=
  if i.table ∈ tables then
    [.declare (indexNode i), .relate ⟨.hasIndex, (.table, i.table), (.index, i.name)⟩ [] (.obj [])]
  else []

/-- Everything a schema says. -/
def schemaStatements (s : Schema) (known : String → Bool) : List Statement :=
  s.tables.map (fun t => .declare (tableNode t)) ++
    (s.tables.flatMap (contentStatements known s.tableNames) ++
      (s.foreignKeys.flatMap (foreignKeyStatements (columnKeys s.tables) s.tableNames) ++
        s.indexes.flatMap (indexStatements s.tableNames)))

/-! ## Ids by key -/

/-- The ids of the nodes of a kind, by their keys. -/
structure Tells (g : Graph) (kind : NodeKind) (ids : List (String × Int)) (keys : List String) : Prop where
  keys : ids.map Prod.fst = keys
  names : ∀ p ∈ ids, g.Names p.2 (kind, p.1)

theorem Tells.mono {g g' : Graph} {kind : NodeKind} {ids : List (String × Int)} {keys : List String}
    (h : Tells g kind ids keys) (hg : ∀ id i, g.Names id i → g'.Names id i) : Tells g' kind ids keys :=
  ⟨h.keys, fun p hp => hg _ _ (h.names p hp)⟩

theorem Tells.append {g : Graph} {kind : NodeKind} {ids ids' : List (String × Int)} {keys keys' : List String}
    (h : Tells g kind ids keys) (h' : Tells g kind ids' keys') : Tells g kind (ids ++ ids') (keys ++ keys') := by
  refine ⟨by rw [List.map_append, h.keys, h'.keys], ?_⟩
  intro p hp
  rcases List.mem_append.1 hp with hp | hp
  · exact h.names p hp
  · exact h'.names p hp

theorem Tells.lookup_of_mem {g : Graph} {kind : NodeKind} {ids : List (String × Int)} {keys : List String}
    (h : Tells g kind ids keys) {key : String} (hkey : key ∈ keys) :
    ∃ id, ids.lookup key = some id ∧ g.Names id (kind, key) := by
  rw [← h.keys] at hkey
  obtain ⟨p, hp, rfl⟩ := List.mem_map.1 hkey
  have hsome : (ids.lookup p.1).isSome = true := List.lookup_isSome_iff.2 ⟨p, hp, by simp⟩
  obtain ⟨id, hid⟩ := Option.isSome_iff_exists.1 hsome
  obtain ⟨before, after, heq, _⟩ := List.lookup_eq_some_iff.1 hid
  refine ⟨id, hid, h.names (p.1, id) ?_⟩
  rw [heq]
  simp

theorem Tells.lookup_of_not_mem {g : Graph} {kind : NodeKind} {ids : List (String × Int)} {keys : List String}
    (h : Tells g kind ids keys) {key : String} (hkey : key ∉ keys) : ids.lookup key = none := by
  rw [List.lookup_eq_none_iff]
  intro p hp
  rw [bne_iff_ne]
  rintro rfl
  rw [← h.keys] at hkey
  exact hkey (List.mem_map_of_mem hp)

theorem inferTable?_mem {stem : String} {names : List String} {target : String}
    (h : inferTable? stem names = some target) : target ∈ names := by
  rw [inferTable?, Option.or_eq_some_iff] at h
  rcases h with h | ⟨_, h⟩
  · exact List.mem_of_find?_eq_some h
  · exact List.mem_of_find?_eq_some h

/-! ## Carrying out what a schema says -/

variable {w : Work}

theorem says_writeTables (hw : w.Sound) (tables : List Table) :
    ∃ ids, Says (writeTables tables) origin w ids (tables.map fun t => .declare (tableNode t)) ∧
      Tells (applyAll origin w (tables.map fun t => .declare (tableNode t))).graph .table ids
        (tables.map (·.name)) := by
  induction tables generalizing w with
  | nil => exact ⟨[], Says.pure origin w [], rfl, by simp⟩
  | cons t rest ih =>
      have hw₁ := sound_apply (o := origin) hw (.declare (tableNode t))
      have hid := names_writeNode (o := origin) hw (tableNode t)
      obtain ⟨ids, hwords, htells⟩ := ih hw₁
      refine ⟨(t.name, (w.graph.upsertNode (tableNode t)).2) :: ids, ?_, ?_, ?_⟩
      · exact (says_writeNode origin w (tableNode t)).bind_cons (hwords.bind_pure _)
      · rw [List.map_cons, List.map_cons, htells.keys]
      · intro p hp
        rcases List.mem_cons.1 hp with rfl | hp
        · exact names_applyAll hw₁ hid _
        · exact htells.names p hp

/-- The edge to the table that the name of a column tells. -/
def writeInferred (tableIds : List (String × Int)) (names : List String) (c : Column) (id : Int) : Build Unit :=
  match ((idStem? c.name).bind (inferTable? · names)).bind fun target => tableIds.lookup target with
  | some target =>
    writeEdge origin {
      kind := .references, source := id, target := target, metadata := .obj [("explicit", .bool false)] }
  | none => pure ()

theorem says_writeInferred (hw : w.Sound) {tableIds : List (String × Int)} {names : List String}
    (htables : Tells w.graph .table tableIds names) (c : Column) {id : Int} {i : Identity} (hid : w.graph.Names id i) :
    Says (writeInferred tableIds names c id) origin w ()
      ((inferredTarget? names c).toList.map fun target =>
        .relate ⟨.references, i, (.table, target)⟩ [] (.obj [("explicit", .bool false)])) := by
  unfold writeInferred inferredTarget?
  cases hstem : (idStem? c.name).bind (inferTable? · names) with
  | none => exact Says.pure origin w ()
  | some target =>
      obtain ⟨stem, _, hinfer⟩ := Option.bind_eq_some_iff.1 hstem
      obtain ⟨targetId, hlookup, htarget⟩ := htables.lookup_of_mem (inferTable?_mem hinfer)
      simp only [Option.bind_some, hlookup]
      exact says_writeEdge hw hid htarget

theorem writeColumns_cons (tableIds : List (String × Int)) (names : List String) (t : Table) (tableId : Int)
    (c : Column) (rest : List Column) :
    writeColumns tableIds names t tableId (c :: rest) = (do
      let id ← writeNode (columnNode t c)
      writeEdge origin { kind := .hasColumn, source := tableId, target := id }
      writeInferred tableIds names c id
      let ids ← writeColumns tableIds names t tableId rest
      return (columnKey t.name c.name, id) :: ids) := by
  rw [writeColumns]
  refine bind_congr fun id => bind_congr fun _ => ?_
  unfold writeInferred
  cases ((idStem? c.name).bind (inferTable? · names)).bind fun target => tableIds.lookup target with
  | none =>
      dsimp only
      rw [pure_bind]
  | some target => rfl

theorem says_writeColumns (hw : w.Sound) {tableIds : List (String × Int)} {names : List String}
    (htables : Tells w.graph .table tableIds names) (t : Table) {tableId : Int}
    (htable : w.graph.Names tableId (.table, t.name)) (columns : List Column) :
    ∃ ids, Says (writeColumns tableIds names t tableId columns) origin w ids
        (columns.flatMap (columnStatements names t)) ∧
      Tells (applyAll origin w (columns.flatMap (columnStatements names t))).graph .column ids
        (columns.map fun c => columnKey t.name c.name) := by
  induction columns generalizing w with
  | nil => exact ⟨[], Says.pure origin w [], rfl, by simp⟩
  | cons c rest ih =>
      let id := (w.graph.upsertNode (columnNode t c)).2
      let w₁ := Statement.apply origin w (.declare (columnNode t c))
      let s := Statement.relate ⟨.hasColumn, (.table, t.name), (.column, columnKey t.name c.name)⟩ [] (.obj [])
      have hw₁ : w₁.Sound := sound_apply hw _
      have hid₁ : w₁.graph.Names id (.column, columnKey t.name c.name) := names_writeNode hw (columnNode t c)
      have hw₂ : (s.apply origin w₁).Sound := sound_apply hw₁ s
      have hid₂ : (s.apply origin w₁).graph.Names id (.column, columnKey t.name c.name) := names_apply hw₁ hid₁ s
      have hmono : ∀ id i, w.graph.Names id i → (s.apply origin w₁).graph.Names id i :=
        fun _ _ h => names_apply hw₁ (names_apply hw h _) s
      have hinferred := says_writeInferred hw₂ (htables.mono hmono) c hid₂
      have happly : applyAll origin (s.apply origin w₁) ((inferredTarget? names c).toList.map fun target =>
            .relate ⟨.references, (.column, columnKey t.name c.name), (.table, target)⟩ []
              (.obj [("explicit", .bool false)])) =
          applyAll origin w (columnStatements names t c) := rfl
      have hw₃ : (applyAll origin w (columnStatements names t c)).Sound := sound_applyAll hw _
      have hmono₃ : ∀ id i, w.graph.Names id i →
          (applyAll origin w (columnStatements names t c)).graph.Names id i := fun _ _ h => names_applyAll hw h _
      obtain ⟨ids, hwords, htells⟩ := ih hw₃ (htables.mono hmono₃) (hmono₃ _ _ htable)
      refine ⟨(columnKey t.name c.name, id) :: ids, ?_, ?_, ?_⟩
      · rw [writeColumns_cons, List.flatMap_cons]
        have hrest := hinferred.bind (f := fun _ => do
          let ids ← writeColumns tableIds names t tableId rest
          return (columnKey t.name c.name, id) :: ids) (by rw [happly]; exact hwords.bind_pure _)
        exact (says_writeNode origin w (columnNode t c)).bind_cons
          ((says_writeEdge hw₁ (names_apply hw htable _) hid₁).bind_cons hrest)
      · rw [List.map_cons, List.map_cons, htells.keys]
      · intro p hp
        rw [List.flatMap_cons, applyAll_append]
        rcases List.mem_cons.1 hp with rfl | hp
        · refine names_applyAll hw₃ ?_ _
          rw [← happly]
          exact names_applyAll hw₂ hid₂ _
        · exact htells.names p hp

/-- The classes that are in the graph. -/
def KnowsClasses (w : Work) (known : String → Bool) : Prop := ∀ c, w.graph.Has (.classDecl, c) ↔ known c = true

/-- Statements that speak of known classes only bring in no others. -/
theorem KnowsClasses.applyAll (hw : w.Sound) {known : String → Bool} (h : KnowsClasses w known)
    {statements : List Statement} (hs : ∀ s ∈ statements, ∀ c, s.Mentions (.classDecl, c) → known c = true) :
    KnowsClasses (applyAll origin w statements) known := by
  intro c
  rw [has_applyAll hw, h c]
  constructor
  · rintro (h | ⟨s, hmem, hc⟩)
    · exact h
    · exact hs s hmem c hc
  · exact Or.inl

theorem says_writeBacking (hw : w.Sound) {known : String → Bool} (hknown : KnowsClasses w known) (t : Table)
    {tableId : Int} (htable : w.graph.Names tableId (.table, t.name)) :
    Says (writeBacking t tableId) origin w () (backingStatements known t) := by
  refine Says.get_bind ?_
  unfold backingStatements
  dsimp only
  have hfound : ∀ id, (w.cache.lookup .classDecl (classify t.name)).or (w.graph.nodeId? .classDecl (classify t.name)) =
      some id → w.graph.Names id (.classDecl, classify t.name) := by
    intro id h
    rcases Option.or_eq_some_iff.1 h with h | ⟨_, h⟩
    · exact hw.cache.lookup h
    · exact (Graph.nodeId?_eq_some_iff hw.graph _ _ _).1 h
  cases hl : (w.cache.lookup .classDecl (classify t.name)).or (w.graph.nodeId? .classDecl (classify t.name)) with
  | some id =>
      rw [if_pos ((hknown _).1 ⟨id, hfound id hl⟩)]
      exact says_writeEdge hw (hfound id hl) htable
  | none =>
      obtain ⟨_, hnone⟩ := Option.or_eq_none_iff.1 hl
      have hno : ¬ known (classify t.name) = true := by
        rw [← hknown]
        exact (Graph.nodeId?_eq_none_iff hw.graph _ _).1 hnone
      rw [if_neg hno]
      exact Says.pure origin w ()

theorem class_of_mentions_content {known : String → Bool} {names : List String} {t : Table} {s : Statement}
    (hs : s ∈ contentStatements known names t) {c : String} (hc : s.Mentions (.classDecl, c)) : known c = true := by
  rcases List.mem_append.1 hs with hs | hs
  · obtain ⟨column, _, hs⟩ := List.mem_flatMap.1 hs
    simp only [columnStatements, List.mem_cons, List.mem_map, Option.mem_toList] at hs
    rcases hs with rfl | rfl | ⟨target, _, rfl⟩
    · exact absurd (congrArg Prod.fst hc) (by simp [columnNode, NewNode.identity])
    · rcases hc with hc | hc <;> exact absurd (congrArg Prod.fst hc) (by simp)
    · rcases hc with hc | hc <;> exact absurd (congrArg Prod.fst hc) (by simp)
  · unfold backingStatements at hs
    split at hs
    · rename_i hknown
      rw [List.mem_singleton] at hs
      subst hs
      rcases hc with hc | hc
      · rw [show c = classify t.name from congrArg Prod.snd hc]
        exact hknown
      · exact absurd (congrArg Prod.fst hc) (by simp)
    · exact absurd hs (by simp)

theorem says_writeContents (hw : w.Sound) {known : String → Bool} (hknown : KnowsClasses w known)
    {tableIds : List (String × Int)} {names : List String} (htables : Tells w.graph .table tableIds names)
    (tables : List Table) (hnames : ∀ t ∈ tables, t.name ∈ names) :
    ∃ ids, Says (writeContents tableIds names tables) origin w ids
        (tables.flatMap (contentStatements known names)) ∧
      Tells (applyAll origin w (tables.flatMap (contentStatements known names))).graph .column ids
        (columnKeys tables) := by
  induction tables generalizing w with
  | nil => exact ⟨[], Says.pure origin w [], rfl, by simp⟩
  | cons t rest ih =>
      obtain ⟨tableId, hlookup, htable⟩ := htables.lookup_of_mem (hnames t List.mem_cons_self)
      obtain ⟨ids, hcolumns, hids⟩ := says_writeColumns hw htables t htable t.columns
      let columns := t.columns.flatMap (columnStatements names t)
      have hw₁ : (applyAll origin w columns).Sound := sound_applyAll hw _
      have hsub : ∀ s ∈ columns, s ∈ contentStatements known names t :=
        fun s hs => List.mem_append_left _ hs
      have hknown₁ : KnowsClasses (applyAll origin w columns) known :=
        hknown.applyAll hw fun s hs c hc => class_of_mentions_content (hsub s hs) hc
      have hbacking := says_writeBacking hw₁ hknown₁ t (names_applyAll hw htable _)
      have happly : applyAll origin (applyAll origin w columns) (backingStatements known t) =
          applyAll origin w (contentStatements known names t) := by
        rw [contentStatements, applyAll_append]
      have hw₂ : (applyAll origin w (contentStatements known names t)).Sound := sound_applyAll hw _
      have hknown₂ : KnowsClasses (applyAll origin w (contentStatements known names t)) known :=
        hknown.applyAll hw fun s hs c hc => class_of_mentions_content hs hc
      obtain ⟨more, hmore, hmoreIds⟩ := ih hw₂ hknown₂ (htables.mono fun _ _ h => names_applyAll hw h _)
        fun t' ht' => hnames t' (List.mem_cons_of_mem _ ht')
      refine ⟨ids ++ more, ?_, ?_⟩
      · rw [writeContents, hlookup, List.flatMap_cons, contentStatements, List.append_assoc]
        refine hcolumns.bind (hbacking.bind ?_)
        rw [happly]
        exact hmore.bind_pure _
      · rw [List.flatMap_cons, applyAll_append, columnKeys, List.flatMap_cons]
        refine Tells.append ?_ hmoreIds
        refine hids.mono fun id i h => names_applyAll hw₂ ?_ _
        rw [← happly]
        exact names_applyAll hw₁ h _

theorem says_writeForeignKeys (hw : w.Sound) {tableIds columnIds : List (String × Int)} {tables columns : List String}
    (htables : Tells w.graph .table tableIds tables) (hcolumns : Tells w.graph .column columnIds columns)
    (keys : List ForeignKey) :
    Says (writeForeignKeys tableIds columnIds keys) origin w ()
      (keys.flatMap (foreignKeyStatements columns tables)) := by
  induction keys generalizing w with
  | nil => exact Says.pure origin w ()
  | cons k rest ih =>
      have hrest : ∀ L, Says (writeForeignKeys tableIds columnIds rest) origin (applyAll origin w L) ()
          (rest.flatMap (foreignKeyStatements columns tables)) := fun L =>
        ih (sound_applyAll hw L) (htables.mono fun _ _ h => names_applyAll hw h L)
          (hcolumns.mono fun _ _ h => names_applyAll hw h L)
      rw [writeForeignKeys, List.flatMap_cons]
      by_cases hc : columnKey k.fromTable k.fromColumn ∈ columns
      · obtain ⟨columnId, hcolumn, hcolumnId⟩ := hcolumns.lookup_of_mem hc
        by_cases ht : k.toTable ∈ tables
        · obtain ⟨tableId, htable, htableId⟩ := htables.lookup_of_mem ht
          rw [foreignKeyStatements, if_pos ⟨hc, ht⟩, hcolumn, htable]
          exact (says_writeEdge hw hcolumnId htableId).bind (hrest _)
        · rw [foreignKeyStatements, if_neg fun h => ht h.2, hcolumn, htables.lookup_of_not_mem ht]
          exact hrest []
      · rw [foreignKeyStatements, if_neg fun h => hc h.1, hcolumns.lookup_of_not_mem hc]
        exact hrest []

theorem says_writeIndexes (hw : w.Sound) {tableIds : List (String × Int)} {tables : List String}
    (htables : Tells w.graph .table tableIds tables) (indexes : List Index) :
    Says (writeIndexes tableIds indexes) origin w () (indexes.flatMap (indexStatements tables)) := by
  induction indexes generalizing w with
  | nil => exact Says.pure origin w ()
  | cons i rest ih =>
      rw [writeIndexes, List.flatMap_cons]
      by_cases ht : i.table ∈ tables
      · obtain ⟨tableId, htable, htableId⟩ := htables.lookup_of_mem ht
        have hw₁ : (Statement.apply origin w (.declare (indexNode i))).Sound := sound_apply hw _
        have hid := names_writeNode (o := origin) hw (indexNode i)
        rw [indexStatements, if_pos ht, htable]
        refine (says_writeNode origin w (indexNode i)).bind_cons
          ((says_writeEdge hw₁ (names_apply hw htableId _) hid).bind_cons ?_)
        exact ih (sound_apply hw₁ _) (htables.mono fun _ _ h => names_apply hw₁ (names_apply hw h _) _)
      · rw [indexStatements, if_neg ht, htables.lookup_of_not_mem ht]
        exact ih hw htables

/-- Projecting a schema carries out what the schema says. -/
theorem says_writeSchema (hw : w.Sound) {known : String → Bool} (hknown : KnowsClasses w known) (s : Schema) :
    Says (writeSchema s) origin w () (schemaStatements s known) := by
  obtain ⟨tableIds, htables, htableIds⟩ := says_writeTables hw s.tables
  let declared : List Statement := s.tables.map fun t => .declare (tableNode t)
  have hw₁ : (applyAll origin w declared).Sound := sound_applyAll hw _
  have hknown₁ : KnowsClasses (applyAll origin w declared) known := by
    refine hknown.applyAll hw fun s' hs' c hc => ?_
    obtain ⟨t, _, rfl⟩ := List.mem_map.1 hs'
    exact absurd (congrArg Prod.fst hc) (by simp [tableNode, NewNode.identity])
  obtain ⟨columnIds, hcontents, hcolumnIds⟩ := says_writeContents hw₁ hknown₁ htableIds s.tables
    fun t ht => List.mem_map_of_mem ht
  let contents := s.tables.flatMap (contentStatements known (s.tables.map (·.name)))
  have hw₂ : (applyAll origin (applyAll origin w declared) contents).Sound := sound_applyAll hw₁ _
  have htableIds₂ := htableIds.mono fun _ _ h => names_applyAll (o := origin) hw₁ h contents
  have hkeys := says_writeForeignKeys hw₂ htableIds₂ hcolumnIds s.foreignKeys
  refine htables.bind (hcontents.bind (hkeys.bind ?_))
  exact says_writeIndexes (sound_applyAll hw₂ _) (htableIds₂.mono fun _ _ h => names_applyAll hw₂ h _) s.indexes

/-! ## What the statements are about -/

/-- The links that a schema relates. -/
inductive SchemaLink (known : String → Bool) : Link → Prop
  | hasColumn (table column : String) : SchemaLink known ⟨.hasColumn, (.table, table), (.column, column)⟩
  | references (column table : String) : SchemaLink known ⟨.references, (.column, column), (.table, table)⟩
  | backs (model table : String) (there : known model = true) :
      SchemaLink known ⟨.backs, (.classDecl, model), (.table, table)⟩
  | hasIndex (table index : String) : SchemaLink known ⟨.hasIndex, (.table, table), (.index, index)⟩

theorem schemaLink_of_mem {s : Schema} {known : String → Bool} {l : Link} {locations : List String} {metadata : Json}
    (h : Statement.relate l locations metadata ∈ schemaStatements s known) : SchemaLink known l := by
  simp only [schemaStatements, contentStatements, columnStatements, backingStatements, foreignKeyStatements,
    indexStatements, List.mem_append, List.mem_map, List.mem_flatMap, reduceCtorEq, and_false, exists_false,
    false_or] at h
  rcases h with ⟨t, _, ⟨c, _, h⟩ | h⟩ | ⟨k, _, h⟩ | ⟨i, _, h⟩
  · simp only [List.mem_cons, List.mem_map, reduceCtorEq, false_or, Statement.relate.injEq] at h
    rcases h with ⟨rfl, _, _⟩ | ⟨target, _, rfl, _, _⟩
    · exact .hasColumn _ _
    · exact .references _ _
  · split at h
    · rename_i hknown
      simp only [List.mem_singleton, Statement.relate.injEq] at h
      obtain ⟨rfl, _, _⟩ := h
      exact .backs _ _ hknown
    · exact absurd h (by simp)
  · split at h
    · simp only [List.mem_singleton, Statement.relate.injEq] at h
      obtain ⟨rfl, _, _⟩ := h
      exact .references _ _
    · exact absurd h (by simp)
  · split at h
    · simp only [List.mem_cons, reduceCtorEq, false_or, List.not_mem_nil, or_false, Statement.relate.injEq] at h
      obtain ⟨rfl, _, _⟩ := h
      exact .hasIndex _ _
    · exact absurd h (by simp)

/-- The nodes that a schema declares. -/
structure SchemaNode (n : NewNode) : Prop where
  kind : n.kind.isSchema = true
  source : n.source = .fromSchema
  anchor : n.anchor = none
  isRecord : ∃ fields, n.metadata = .record fields

theorem schemaNode_of_mem {s : Schema} {known : String → Bool} {n : NewNode}
    (h : Statement.declare n ∈ schemaStatements s known) : SchemaNode n := by
  simp only [schemaStatements, contentStatements, columnStatements, backingStatements, foreignKeyStatements,
    indexStatements, List.mem_append, List.mem_map, List.mem_flatMap, Statement.declare.injEq] at h
  rcases h with ⟨t, _, rfl⟩ | ⟨t, _, ⟨c, _, h⟩ | h⟩ | ⟨k, _, h⟩ | ⟨i, _, h⟩
  · exact ⟨rfl, rfl, rfl, _, rfl⟩
  · simp only [List.mem_cons, List.mem_map, reduceCtorEq, and_false, exists_false, or_false,
      Statement.declare.injEq] at h
    subst h
    exact ⟨rfl, rfl, rfl, _, rfl⟩
  · split at h <;> exact absurd h (by simp)
  · split at h <;> exact absurd h (by simp)
  · split at h
    · simp only [List.mem_cons, reduceCtorEq, List.not_mem_nil, or_false, Statement.declare.injEq] at h
      subst h
      exact ⟨rfl, rfl, rfl, _, rfl⟩
    · exact absurd h (by simp)

end CodeAtlas.Projection
