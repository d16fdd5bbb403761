import CodeAtlas.Schema.Reader
import Mathlib.Data.List.Nodup
/-!
# What is read of a schema is well-formed

Whatever the text is, in the schema that is read of it no two tables and no two columns of a table have one name, every
index is on a table that is there, and the columns of a primary key are marked and never null. Each statement keeps
this, also while a table is open: the open table is not marked yet, and the indexes that wait for its end are on it.
-/

namespace CodeAtlas.Schema

/-- The columns of a table have different names; those of the primary key, and no others, are marked, and are not
null. -/
structure Table.WellFormed (t : Table) : Prop where
  columns : (t.columns.map Column.name).Nodup
  keyed : ∀ c ∈ t.columns, (c.primaryKey = true ↔ c.name ∈ t.primaryKey)
  notNull : ∀ c ∈ t.columns, c.primaryKey = true → c.nullable = false

/-- Tables have different names and are well-formed, and every index is on one of them. -/
structure WellFormed (s : Schema) : Prop where
  names : s.tableNames.Nodup
  tables : ∀ t ∈ s.tables, t.WellFormed
  indexes : ∀ i ∈ s.indexes, i.table ∈ s.tableNames

/-- A table that is open in a block: its columns have different names and are not marked yet, and the indexes of the
block are on it. -/
structure Block.Opens (b : Block) (t : Table) : Prop where
  columns : (t.columns.map Column.name).Nodup
  unmarked : ∀ c ∈ t.columns, c.primaryKey = false
  indexes : ∀ i ∈ b.indexes, i.table = t.name

/-- What a statement on the table `t` can make of a block. -/
inductive Block.Fills (b : Block) (t : Table) : Block → Prop
  | intro (columns : List Column) (indexes : List Index) (keys : List ForeignKey)
      (unmarked : ∀ c ∈ columns, c.primaryKey = false) (own : ∀ i ∈ indexes, i.table = t.name) :
      Fills b t { b with
        table := some (columns.foldl Table.put t)
        indexes := b.indexes ++ indexes
        foreignKeys := b.foreignKeys ++ keys }

structure Reading.WellFormed (r : Reading) : Prop where
  schema : r.schema.WellFormed
  block : ∀ b t, r.block = some b → b.table = some t → b.Opens t

/-! ## Columns of an open table -/

section

variable {t : Table} {b : Block}

theorem mem_putColumn {c x : Column} {columns : List Column} (h : x ∈ putColumn c columns) : x = c ∨ x ∈ columns := by
  induction columns with
  | nil => exact Or.inl (List.mem_singleton.1 h)
  | cons old rest ih =>
      rw [putColumn] at h
      split at h
      · rcases List.mem_cons.1 h with heq | hrest
        · exact Or.inl heq
        · exact Or.inr (List.mem_cons_of_mem _ hrest)
      · rcases List.mem_cons.1 h with heq | hrest
        · exact Or.inr (heq ▸ List.mem_cons_self)
        · exact (ih hrest).imp_right (List.mem_cons_of_mem _)

theorem nodup_putColumn (c : Column) {columns : List Column} (h : (columns.map Column.name).Nodup) :
    ((putColumn c columns).map Column.name).Nodup := by
  induction columns with
  | nil => exact List.nodup_singleton _
  | cons old rest ih =>
      rw [List.map_cons, List.nodup_cons] at h
      rw [putColumn]
      split
      · next hname =>
          rw [List.map_cons, ← hname]
          exact List.nodup_cons.2 h
      · next hname =>
          rw [List.map_cons]
          refine List.nodup_cons.2 ⟨?_, ih h.2⟩
          intro hmem
          obtain ⟨x, hx, hxname⟩ := List.mem_map.1 hmem
          rcases mem_putColumn hx with heq | hrest
          · exact hname (hxname.symm.trans (congrArg Column.name heq))
          · exact h.1 (hxname ▸ List.mem_map_of_mem hrest)

theorem name_foldl_put (columns : List Column) : (columns.foldl Table.put t).name = t.name := by
  induction columns generalizing t with
  | nil => rfl
  | cons c rest ih => exact ih

theorem Block.Opens.put (h : b.Opens t) {c : Column} (hc : c.primaryKey = false) : b.Opens (t.put c) := by
  refine ⟨nodup_putColumn c h.columns, ?_, h.indexes⟩
  intro x hx
  rcases mem_putColumn hx with heq | hold
  · exact heq ▸ hc
  · exact h.unmarked x hold

theorem Block.Opens.putAll (h : b.Opens t) {columns : List Column} (hcolumns : ∀ c ∈ columns, c.primaryKey = false) :
    b.Opens (columns.foldl Table.put t) := by
  induction columns generalizing t with
  | nil => exact h
  | cons c rest ih =>
      have hput := h.put (hcolumns c List.mem_cons_self)
      exact ih hput fun x hx => hcolumns x (List.mem_cons_of_mem _ hx)

end

/-! ## Statements on an open table -/

section

variable {t : Table} {b b' : Block} {name : String} {args : Arguments}

theorem unmarked_timestampColumns : ∀ c ∈ timestampColumns args, c.primaryKey = false := by
  intro c hc
  obtain ⟨column, _, hcolumn⟩ := List.mem_map.1 hc
  rw [← hcolumn]

theorem unmarked_referenceColumns : ∀ c ∈ referenceColumns name args, c.primaryKey = false := by
  intro c hc
  unfold referenceColumns at hc
  dsimp only at hc
  split at hc <;> simp only [List.mem_cons, List.not_mem_nil, or_false] at hc
  · rcases hc with heq | heq <;> rw [heq]
  · rw [hc]

theorem table_referenceIndex {table : String} : ∀ i ∈ referenceIndex table name args, i.table = table := by
  intro i hi
  unfold referenceIndex at hi
  dsimp only at hi
  split at hi
  · exact absurd hi List.not_mem_nil
  · exact absurd hi List.not_mem_nil
  · rw [List.mem_singleton.1 hi]
  · rw [List.mem_singleton.1 hi]
    rfl

/-- A statement on a table puts unmarked columns into it, and adds indexes on it and foreign keys. -/
theorem fills_statement {method : String} (hopen : b.table = some t) (h : b.statement t method args = .ok b') :
    b.Fills t b' := by
  have hput : ∀ columns, (∀ c ∈ columns, c.primaryKey = false) → b.putAll t columns = b' → b.Fills t b' := by
    intro columns hcolumns heq
    have hfills := Block.Fills.intro (b := b) (t := t) columns [] [] hcolumns (fun i hi => absurd hi List.not_mem_nil)
    rw [List.append_nil, List.append_nil] at hfills
    rw [← heq]
    exact hfills
  have hindex : ∀ indexes, (∀ i ∈ indexes, i.table = t.name) → { b with indexes := b.indexes ++ indexes } = b' →
      b.Fills t b' := by
    intro indexes hindexes heq
    have hfills := Block.Fills.intro (b := b) (t := t) [] indexes [] (fun c hc => absurd hc List.not_mem_nil) hindexes
    rw [List.append_nil, List.foldl_nil, ← hopen] at hfills
    rw [← heq]
    exact hfills
  unfold Block.statement at h
  split at h
  · exact hput _ unmarked_timestampColumns (Except.ok.inj h)
  split at h
  · split at h
    · exact absurd h (by simp)
    · rw [← Except.ok.inj h]
      exact .intro _ _ _ unmarked_referenceColumns table_referenceIndex
  split at h
  · split at h
    · exact absurd h (by simp)
    · refine hindex [_] ?_ (Except.ok.inj h)
      intro i hi
      rw [List.mem_singleton.1 hi]
      rfl
  split at h
  · split at h
    · refine hput _ ?_ (Except.ok.inj h)
      intro c hc
      rw [List.mem_singleton.1 hc]
      rfl
    · exact absurd h (by simp)
  split at h
  · refine hindex [] (fun i hi => absurd hi List.not_mem_nil) ?_
    rw [List.append_nil]
    exact Except.ok.inj h
  split at h
  · exact absurd h (by simp)
  · refine hput _ ?_ (Except.ok.inj h)
    intro c hc
    obtain ⟨column, _, hcolumn⟩ := List.mem_map.1 hc
    rw [← hcolumn]
    rfl

theorem Block.Opens.fills (h : b.Opens t) (hfills : b.Fills t b') {t' : Table} (ht' : b'.table = some t') :
    b'.Opens t' := by
  cases hfills with
  | intro columns indexes keys unmarked own =>
      have hfilled := h.putAll unmarked
      rw [← Option.some.inj ht']
      refine ⟨hfilled.columns, hfilled.unmarked, ?_⟩
      intro i hi
      rw [name_foldl_put]
      rcases List.mem_append.1 hi with hold | hnew
      · exact h.indexes i hold
      · exact own i hnew

end

/-! ## The end of a table -/

section

variable {t : Table} {b : Block}

theorem names_finished (b : Block) (t : Table) :
    (b.finished t).columns.map Column.name = (b.withKeyColumn t).map Column.name := by
  rw [Block.finished, List.map_map]
  apply List.map_congr_left
  intro c _
  rw [Function.comp_apply]
  split <;> rfl

/-- The key column that a table has by itself is one more column, or was declared. -/
theorem withKeyColumn_cases (b : Block) (t : Table) :
    b.withKeyColumn t = t.columns ∨
      ∃ key, key ∈ b.keyColumns ∧ key ∉ t.columns.map Column.name ∧
        ∃ type, b.withKeyColumn t = Column.keyed { name := key, sqlType := type } :: t.columns := by
  unfold Block.withKeyColumn
  split
  · next key type hkeys _ =>
      split
      · exact Or.inl rfl
      · next hnew =>
          refine Or.inr ⟨key, by rw [hkeys]; exact List.mem_singleton_self key, ?_, type, rfl⟩
          intro hmem
          obtain ⟨c, hc, hname⟩ := List.mem_map.1 hmem
          exact hnew (List.find?_isSome.2 ⟨c, hc, decide_eq_true hname⟩)
  · exact Or.inl rfl

theorem Block.Opens.wellFormed_finished (h : b.Opens t) : (b.finished t).WellFormed := by
  -- a column is marked before the end only if it is the key column itself
  have hmarked : ∀ c ∈ b.withKeyColumn t, c.primaryKey = true → c.name ∈ b.keyColumns := by
    intro c hc hkey
    rcases withKeyColumn_cases b t with heq | ⟨key, hkeys, _, type, heq⟩
    · rw [heq] at hc
      exact absurd (hkey.symm.trans (h.unmarked c hc)) (by simp)
    · rw [heq] at hc
      rcases List.mem_cons.1 hc with hself | hold
      · rw [hself]
        exact hkeys
      · exact absurd (hkey.symm.trans (h.unmarked c hold)) (by simp)
  have hfinished : ∀ c ∈ (b.finished t).columns,
      (c.primaryKey = true ↔ c.name ∈ b.keyColumns) ∧ (c.primaryKey = true → c.nullable = false) := by
    intro c hc
    obtain ⟨old, hold, heq⟩ := List.mem_map.1 hc
    subst heq
    split
    · next hkey =>
        have hmem : old.name ∈ b.keyColumns := by simpa using hkey
        exact ⟨iff_of_true rfl hmem, fun _ => rfl⟩
    · next hkey =>
        have hno : old.name ∉ b.keyColumns := by simpa using hkey
        have hplain : ¬ old.primaryKey = true := fun hp => hno (hmarked old hold hp)
        exact ⟨iff_of_false hplain hno, fun hp => absurd hp hplain⟩
  refine ⟨?_, fun c hc => (hfinished c hc).1, fun c hc => (hfinished c hc).2⟩
  rw [names_finished]
  rcases withKeyColumn_cases b t with heq | ⟨key, _, hnew, type, heq⟩
  · rw [heq]
    exact h.columns
  · rw [heq, List.map_cons]
    exact List.nodup_cons.2 ⟨hnew, h.columns⟩

end

/-! ## One statement -/

namespace Reading

variable {r : Reading}

theorem WellFormed.warn (h : r.WellFormed) (line : Nat) (trouble : Trouble) : (r.warn line trouble).WellFormed :=
  ⟨⟨h.schema.names, h.schema.tables, h.schema.indexes⟩, h.block⟩

theorem tableNames_dropTable (s : Schema) (name : String) :
    (dropTable s name).tableNames = s.tableNames.filter (· ≠ name) := by
  rw [tableNames, tableNames, dropTable, List.filter_map]
  rfl

theorem wellFormed_dropTable {s : Schema} (h : s.WellFormed) (name : String) : (dropTable s name).WellFormed := by
  refine ⟨?_, fun t ht => h.tables t (List.mem_filter.1 ht).1, ?_⟩
  · rw [tableNames_dropTable]
    exact h.names.filter _
  · intro i hi
    obtain ⟨hi, hne⟩ := List.mem_filter.1 hi
    rw [tableNames_dropTable]
    exact List.mem_filter.2 ⟨h.indexes i hi, hne⟩

theorem wellFormed_addTable {s : Schema} (h : s.WellFormed) {t : Table} (ht : t.WellFormed)
    (hnew : t.name ∉ s.tableNames) {indexes : List Index} (hindexes : ∀ i ∈ indexes, i.table = t.name)
    (keys : List ForeignKey) :
    Schema.WellFormed { s with
      tables := s.tables ++ [t], indexes := s.indexes ++ indexes, foreignKeys := s.foreignKeys ++ keys } := by
  have hnames : (s.tables ++ [t]).map (·.name) = s.tableNames ++ [t.name] := by
    rw [List.map_append, tableNames]
    rfl
  refine ⟨?_, ?_, ?_⟩
  · rw [tableNames, hnames]
    exact List.nodup_append.2 ⟨h.names, List.nodup_singleton _, fun a ha c hc heq =>
      hnew (List.mem_singleton.1 hc ▸ heq ▸ ha)⟩
  · intro t' ht'
    rcases List.mem_append.1 ht' with hold | hlast
    · exact h.tables t' hold
    · rw [List.mem_singleton.1 hlast]
      exact ht
  · intro i hi
    rw [tableNames, hnames]
    rcases List.mem_append.1 hi with hold | hown
    · exact List.mem_append_left _ (h.indexes i hold)
    · rw [hindexes i hown]
      exact List.mem_append_right _ (List.mem_singleton_self _)

/-- The end of a table puts it, finished, in the place of any that has its name. -/
theorem WellFormed.close (h : r.WellFormed) : r.close.WellFormed := by
  unfold Reading.close
  split
  · exact h
  · next b hb =>
      dsimp only
      split
      · exact ⟨h.schema, fun _ _ hnone => absurd hnone (by simp)⟩
      · next t ht =>
          have hopens := h.block b t hb ht
          refine ⟨?_, fun _ _ hnone => ?_⟩
          · split
            · refine wellFormed_addTable (wellFormed_dropTable (h.warn _ _).schema _) hopens.wellFormed_finished ?_
                hopens.indexes _
              rw [tableNames_dropTable]
              intro hmem
              simpa using (List.mem_filter.1 hmem).2
            · next hnew =>
                exact wellFormed_addTable h.schema hopens.wellFormed_finished
                  (fun hmem => hnew ((table?_isSome_iff _).2 hmem)) hopens.indexes _
          · split at hnone <;> exact absurd hnone (by simp [Reading.warn])

theorem WellFormed.closeUnended (h : r.WellFormed) : r.closeUnended.WellFormed := by
  unfold Reading.closeUnended
  split
  · exact h
  · exact (h.warn _ _).close

theorem WellFormed.openTable (h : r.WellFormed) (rest : List Char) (line : Nat) :
    (r.openTable rest line).WellFormed := by
  unfold Reading.openTable
  dsimp only
  generalize hargs : Arguments.ofChars (splitBlock rest).arguments = args
  have hwarned : (if (args.name? 0).map (fun name => ({ name := name, comment := nameOption? args "comment" } : Table))
      |>.isNone then r.warn line .unnamedTable else r).WellFormed := by
    split
    · exact h.warn _ _
    · exact h
  generalize (if (args.name? 0).map (fun name => ({ name := name, comment := nameOption? args "comment" } : Table))
      |>.isNone then r.warn line .unnamedTable else r) = r' at hwarned ⊢
  -- the table is empty when it is opened
  have hopened : ∀ b : Block, b.indexes = [] →
      b.table = (args.name? 0).map (fun name => { name := name, comment := nameOption? args "comment" }) →
      WellFormed { r' with block := some b } := by
    intro b hindexes htable
    refine ⟨hwarned.schema, ?_⟩
    intro b' t hb' ht
    obtain rfl := Option.some.inj hb'
    rw [htable] at ht
    obtain ⟨name, _, rfl⟩ := Option.map_eq_some_iff.1 ht
    exact ⟨List.nodup_nil, fun c hc => absurd hc List.not_mem_nil, fun i hi => absurd (hindexes ▸ hi) List.not_mem_nil⟩
  split
  · exact hopened _ rfl rfl
  · exact (hopened _ rfl rfl).close

theorem WellFormed.tableStatement (h : r.WellFormed) {b : Block} (hb : r.block = some b) (method : String)
    (rest : List Char) (line : Nat) : (r.tableStatement b method rest line).WellFormed := by
  unfold Reading.tableStatement
  split
  · exact h
  · next t ht =>
      split
      · next b' hstatement =>
          refine ⟨h.schema, ?_⟩
          intro b'' t' hb'' ht'
          obtain rfl := Option.some.inj hb''
          exact (h.block b t hb ht).fills (fills_statement ht hstatement) ht'
      · exact h.warn _ _

theorem WellFormed.addIndex (h : r.WellFormed) (rest : List Char) (line : Nat) : (r.addIndex rest line).WellFormed := by
  unfold Reading.addIndex
  dsimp only
  split
  · next table c cs _ _ =>
      split
      · exact h.warn _ _
      · next hknown =>
          have htable : table ∈ r.schema.tableNames := by
            rw [← table?_isSome_iff]
            exact Option.isSome_iff_ne_none.2 (by simpa using hknown)
          refine ⟨⟨h.schema.names, h.schema.tables, ?_⟩, h.block⟩
          intro i hi
          rcases List.mem_append.1 hi with hold | hlast
          · exact h.schema.indexes i hold
          · rw [List.mem_singleton.1 hlast]
            exact htable
  · exact h.warn _ _

theorem WellFormed.addForeignKey (h : r.WellFormed) (rest : List Char) (line : Nat) :
    (r.addForeignKey rest line).WellFormed := by
  unfold Reading.addForeignKey
  dsimp only
  split
  · exact ⟨⟨h.schema.names, h.schema.tables, h.schema.indexes⟩, h.block⟩
  · exact h.warn _ _

theorem WellFormed.topStatement (h : r.WellFormed) (head rest : List Char) (s : Statement) :
    (r.topStatement head rest s).WellFormed := by
  unfold Reading.topStatement
  split
  · exact h.openTable rest s.line
  split
  · exact h.addIndex rest s.line
  split
  · exact h.addForeignKey rest s.line
  split
  · exact ⟨⟨h.schema.names, h.schema.tables, h.schema.indexes⟩, h.block⟩
  · exact h

theorem WellFormed.step (h : r.WellFormed) (s : Statement) : (r.step s).WellFormed := by
  unfold Reading.step
  split
  · exact h.close
  · dsimp only
    split
    · exact h.topStatement _ _ s
    · next b hb =>
        split
        · exact h.closeUnended.topStatement _ _ s
        · split
          · exact h.tableStatement hb _ _ _
          · exact h

theorem wellFormed_foldl (h : r.WellFormed) (statements : List Statement) :
    (statements.foldl Reading.step r).WellFormed := by
  induction statements generalizing r with
  | nil => exact h
  | cons s rest ih => exact ih (h.step s)

theorem wellFormed_empty : ({} : Reading).WellFormed :=
  ⟨⟨List.nodup_nil, fun _ ht => absurd ht List.not_mem_nil, fun _ hi => absurd hi List.not_mem_nil⟩,
    fun _ _ hb => absurd hb (by simp)⟩

end Reading

theorem wellFormed_ofSource (source : String) : (ofSource source).WellFormed :=
  (Reading.wellFormed_foldl Reading.wellFormed_empty (statements source)).closeUnended.schema

end CodeAtlas.Schema
