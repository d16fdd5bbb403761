import CodeAtlas.Proofs.Schema.Reading
import Mathlib.Data.List.Dedup
import Mathlib.Data.List.Induction
/-!
# No table is lost

Every statement that creates a table under a name leaves its mark, whatever stands around it: the tables that are read
of a source are those its statements create, in their order, and of several with one name the last
(`tableNames_ofSource`). A table enters the schema when its block is closed, which may be at its end, at the next table,
or at the end of the text. So the invariant speaks of `Reading.pendingNames`, the names the schema will have once the
open block is closed.
-/

namespace CodeAtlas.Schema

open CodeAtlas.Text

/-- The name of the table that a statement creates: the first argument of its call, the block apart, if that is a
string or a symbol. -/
def Statement.created? (s : Statement) : Option String :=
  if (splitHead s.text).1 = "create_table".toList then
    match (Arguments.ofChars (splitBlock (splitHead s.text).2).arguments).positional.head? with
    | some (.str name) => some name
    | some (.sym name) => some name
    | _ => none
  else none

theorem Statement.created?_of_head (s : Statement) (h : (splitHead s.text).1 = "create_table".toList) :
    s.created? = (Arguments.ofChars (splitBlock (splitHead s.text).2).arguments).name? 0 := by
  rw [created?, if_pos h, Arguments.name?, ← List.head?_eq_getElem?]
  cases (Arguments.ofChars (splitBlock (splitHead s.text).2).arguments).positional.head? with
  | none => rfl
  | some value => cases value <;> rfl

theorem Statement.created?_of_head_ne (s : Statement) (h : (splitHead s.text).1 ≠ "create_table".toList) :
    s.created? = none :=
  if_neg h

/-- A name goes to the end of a list and leaves its old place. -/
def moveToEnd (names : List String) : Option String → List String
  | none => names
  | some name => names.filter (· ≠ name) ++ [name]

theorem filter_ne_of_not_mem {name : String} {names : List String} (h : name ∉ names) :
    names.filter (· ≠ name) = names := by
  rw [List.filter_eq_self]
  intro x hx
  exact decide_eq_true fun heq => h (heq ▸ hx)

/-- A list without its earlier repetitions is built by moving each name to the end. -/
theorem dedup_append_toList (names : List String) (last : Option String) :
    (names ++ last.toList).dedup = moveToEnd names.dedup last := by
  cases last with
  | none => rw [Option.toList_none, List.append_nil, moveToEnd]
  | some name =>
      rw [Option.toList_some, moveToEnd]
      induction names with
      | nil => rfl
      | cons first rest ih =>
          by_cases hname : first = name
          · have hmem : first ∈ rest ++ [name] := by simp [hname]
            rw [List.cons_append, List.dedup_cons_of_mem hmem, ih]
            by_cases hrest : first ∈ rest
            · rw [List.dedup_cons_of_mem hrest]
            · rw [List.dedup_cons_of_notMem hrest, List.filter_cons_of_neg (by simp [hname])]
          · by_cases hrest : first ∈ rest
            · have hmem : first ∈ rest ++ [name] := List.mem_append_left _ hrest
              rw [List.cons_append, List.dedup_cons_of_mem hmem, List.dedup_cons_of_mem hrest, ih]
            · have hmem : first ∉ rest ++ [name] := by simp [hname, hrest]
              rw [List.cons_append, List.dedup_cons_of_notMem hmem, List.dedup_cons_of_notMem hrest, ih,
                List.filter_cons_of_pos (by simp [hname]), List.cons_append]

theorem name_finished (b : Block) (t : Table) : (b.finished t).name = t.name := rfl

namespace Reading

variable {r : Reading}

/-- The name of the table that is open. -/
def openName? (r : Reading) : Option String := (r.block.bind Block.table).map Table.name

/-- The names of the tables once the open one is closed. -/
def pendingNames (r : Reading) : List String := moveToEnd r.schema.tableNames r.openName?

theorem pendingNames_of_closed (h : r.block = none) : r.pendingNames = r.schema.tableNames := by
  rw [pendingNames, openName?, h]
  rfl

theorem pendingNames_warn (line : Nat) (trouble : Trouble) : (r.warn line trouble).pendingNames = r.pendingNames := rfl

@[simp] theorem block_close (r : Reading) : r.close.block = none := by
  unfold close
  split
  · assumption
  · dsimp only
    split
    · rfl
    · split <;> rfl

theorem tableNames_close (r : Reading) : r.close.schema.tableNames = r.pendingNames := by
  rw [pendingNames, openName?, close]
  split
  next hb =>
    rw [hb]
    rfl
  next b hb =>
    rw [hb, Option.bind_some]
    dsimp only
    split
    next ht =>
      rw [ht]
      rfl
    next t ht =>
      rw [ht, Option.map_some, moveToEnd, name_finished]
      split
      · rw [tableNames, List.map_append]
        change (dropTable _ t.name).tableNames ++ [t.name] = _
        rw [tableNames_dropTable]
        rfl
      next hnew =>
        have hfresh : t.name ∉ r.schema.tableNames := fun hmem => hnew ((table?_isSome_iff _).2 hmem)
        rw [tableNames, List.map_append, filter_ne_of_not_mem hfresh]
        rfl

theorem pendingNames_close (r : Reading) : r.close.pendingNames = r.pendingNames := by
  rw [pendingNames_of_closed (block_close r), tableNames_close]

theorem closeUnended_eq (r : Reading) :
    r.closeUnended.block = none ∧ r.closeUnended.schema.tableNames = r.pendingNames := by
  unfold closeUnended
  split
  next hb => exact ⟨hb, (pendingNames_of_closed hb).symm⟩
  next b hb => exact ⟨block_close _, by rw [tableNames_close, pendingNames_warn]⟩

/-! ## One statement -/

theorem pendingNames_openTable (r : Reading) (rest : List Char) (line : Nat) :
    (r.openTable rest line).pendingNames =
      moveToEnd r.schema.tableNames ((Arguments.ofChars (splitBlock rest).arguments).name? 0) := by
  unfold openTable
  dsimp only
  generalize hargs : Arguments.ofChars (splitBlock rest).arguments = args
  generalize hwarned : (if ((args.name? 0).map fun name =>
      ({ name := name, comment := nameOption? args "comment" } : Table)).isNone
      then r.warn line .unnamedTable else r) = r'
  have hnames : r'.schema.tableNames = r.schema.tableNames := by
    rw [← hwarned]
    split <;> rfl
  have hopened : ∀ b : Block,
      b.table = (args.name? 0).map (fun name => { name := name, comment := nameOption? args "comment" }) →
      pendingNames { r' with block := some b } = moveToEnd r.schema.tableNames (args.name? 0) := by
    intro b htable
    rw [pendingNames, openName?, Option.bind_some, htable, Option.map_map, ← hnames]
    cases args.name? 0 <;> rfl
  split
  · exact hopened _ rfl
  · rw [pendingNames_close]
    exact hopened _ rfl

theorem pendingNames_tableStatement {b : Block} (hb : r.block = some b) (method : String) (rest : List Char)
    (line : Nat) : (r.tableStatement b method rest line).pendingNames = r.pendingNames := by
  unfold tableStatement
  split
  · rfl
  next t ht =>
    split
    next b' hstatement =>
      cases fills_statement ht hstatement with
      | intro columns indexes keys unmarked own =>
          rw [pendingNames, pendingNames, openName?, openName?, hb, Option.bind_some, Option.bind_some, ht,
            Option.map_some, Option.map_some, name_foldl_put]
    · rfl

theorem pendingNames_addIndex (r : Reading) (rest : List Char) (line : Nat) :
    (r.addIndex rest line).pendingNames = r.pendingNames := by
  unfold addIndex
  dsimp only
  split
  · split <;> rfl
  · rfl

theorem pendingNames_addForeignKey (r : Reading) (rest : List Char) (line : Nat) :
    (r.addForeignKey rest line).pendingNames = r.pendingNames := by
  unfold addForeignKey
  dsimp only
  split <;> rfl

/-- A statement outside tables creates one or leaves their names alone. -/
theorem pendingNames_topStatement (hclosed : r.block = none) (s : Statement) :
    (r.topStatement (splitHead s.text).1 (splitHead s.text).2 s).pendingNames =
      moveToEnd r.pendingNames s.created? := by
  unfold topStatement
  split
  next hhead => rw [pendingNames_openTable, s.created?_of_head hhead, pendingNames_of_closed hclosed]
  next hhead =>
    rw [s.created?_of_head_ne hhead, moveToEnd]
    split
    · exact pendingNames_addIndex r _ _
    split
    · exact pendingNames_addForeignKey r _ _
    split
    · rfl
    · rfl

/-- One statement adds the name it creates to the end, and no other name comes or goes. -/
theorem pendingNames_step (r : Reading) (s : Statement) :
    (r.step s).pendingNames = moveToEnd r.pendingNames s.created? := by
  unfold step
  split
  next hend =>
    have hhead : (splitHead s.text).1 ≠ "create_table".toList := by
      rw [hend]
      decide
    rw [s.created?_of_head_ne hhead, pendingNames_close, moveToEnd]
  next =>
    dsimp only
    split
    next hclosed => exact pendingNames_topStatement hclosed s
    next b hb =>
      split
      next =>
        -- a table that was not ended is closed before the next one is opened
        obtain ⟨hclosed, hnames⟩ := closeUnended_eq r
        rw [pendingNames_topStatement hclosed, pendingNames_of_closed hclosed, hnames]
      next hhead =>
        rw [s.created?_of_head_ne hhead, moveToEnd]
        split
        · exact pendingNames_tableStatement hb _ _ _
        · rfl

theorem pendingNames_foldl (read : List Statement) :
    (read.foldl Reading.step {}).pendingNames = (read.filterMap Statement.created?).dedup := by
  induction read using List.reverseRecOn with
  | nil => rfl
  | append_singleton read s ih =>
      have hlast : (read ++ [s]).filterMap Statement.created? =
          read.filterMap Statement.created? ++ s.created?.toList := by
        rw [List.filterMap_append]
        cases hs : s.created? <;> simp [hs]
      rw [List.foldl_append, List.foldl_cons, List.foldl_nil, pendingNames_step, ih, hlast, dedup_append_toList]

end Reading

/-- The tables that are read are those that the statements create, in their order; of several with one name the last is
kept. -/
theorem tableNames_ofSource (source : String) :
    (ofSource source).tableNames = ((statements source).filterMap Statement.created?).dedup := by
  rw [ofSource, (Reading.closeUnended_eq _).2, Reading.pendingNames_foldl]

end CodeAtlas.Schema
