import CodeAtlas.Json.Basic
import Mathlib.Data.List.Nodup
import Mathlib.Data.List.Perm.Basic
/-!
# Ordered values

A value is ordered if the names of each of its records ascend, at every depth. These are the values a sorted map can
hold. `Ordered.canonical_eq` says that bringing such a value into canonical form changes nothing, and
`sortFields_perm` that sorting loses no field as long as the names differ.
-/

namespace CodeAtlas

namespace Json

/-- The names of every record ascend. -/
inductive Ordered : Json → Prop
  | null : Ordered .null
  | bool (value : Bool) : Ordered (.bool value)
  | int (value : Int) : Ordered (.int value)
  | real (value : Number.Binary) : Ordered (.real value)
  | str (value : String) : Ordered (.str value)
  | arr {items : List Json} (inside : ∀ item ∈ items, Ordered item) : Ordered (.arr items)
  | obj {fields : List (String × Json)} (names : (fields.map Prod.fst).Pairwise (· < ·))
      (inside : ∀ field ∈ fields, Ordered field.2) : Ordered (.obj fields)

theorem insertField_of_forall_lt {name : String} {value : Json} {sorted : List (String × Json)}
    (hlast : ∀ other ∈ sorted.map Prod.fst, other < name) :
    insertField name value sorted = sorted ++ [(name, value)] := by
  induction sorted with
  | nil => rfl
  | cons head rest ih =>
      obtain ⟨hhead, hrest⟩ := List.forall_mem_cons.1 hlast
      have hne : name ≠ head.1 := fun h => String.lt_irrefl name (h ▸ hhead)
      rw [insertField, if_neg hne, if_neg (String.lt_asymm hhead), ih hrest, List.cons_append]

theorem foldl_insertField_of_pairwise (sorted fields : List (String × Json))
    (hnames : ((sorted ++ fields).map Prod.fst).Pairwise (· < ·)) :
    fields.foldl (fun sorted field => insertField field.1 field.2 sorted) sorted = sorted ++ fields := by
  induction fields generalizing sorted with
  | nil => simp
  | cons field rest ih =>
      have hlast : ∀ other ∈ sorted.map Prod.fst, other < field.1 := by
        rw [List.map_append, List.pairwise_append] at hnames
        exact fun other hother => hnames.2.2 other hother field.1 (by simp)
      rw [List.foldl_cons, insertField_of_forall_lt hlast, ih _ (by simpa using hnames)]
      simp

/-- Sorting leaves ascending fields as they are. -/
theorem sortFields_of_pairwise {fields : List (String × Json)} (hnames : (fields.map Prod.fst).Pairwise (· < ·)) :
    sortFields fields = fields :=
  foldl_insertField_of_pairwise [] fields hnames

theorem insertField_perm {name : String} {value : Json} {sorted : List (String × Json)}
    (hname : name ∉ sorted.map Prod.fst) : (insertField name value sorted).Perm ((name, value) :: sorted) := by
  induction sorted with
  | nil => exact .refl _
  | cons head rest ih =>
      rw [List.map_cons, List.mem_cons, not_or] at hname
      rw [insertField, if_neg hname.1]
      split
      · exact .refl _
      · exact ((ih hname.2).cons head).trans (.swap ..)

theorem foldl_insertField_perm (sorted fields : List (String × Json))
    (hnames : ((sorted ++ fields).map Prod.fst).Nodup) :
    (fields.foldl (fun sorted field => insertField field.1 field.2 sorted) sorted).Perm (sorted ++ fields) := by
  induction fields generalizing sorted with
  | nil => simp
  | cons field rest ih =>
      have hnew : field.1 ∉ sorted.map Prod.fst := by
        simp only [List.map_append, List.map_cons, List.nodup_middle, List.nodup_cons, List.mem_append,
          not_or] at hnames
        exact hnames.1.1
      have hinsert : (insertField field.1 field.2 sorted ++ rest).Perm (sorted ++ field :: rest) :=
        ((insertField_perm hnew).append_right rest).trans List.perm_middle.symm
      rw [List.foldl_cons]
      exact (ih _ ((hinsert.map Prod.fst).nodup_iff.2 hnames)).trans hinsert

/-- Sorting fields of different names only reorders them. -/
theorem sortFields_perm {fields : List (String × Json)} (hnames : (fields.map Prod.fst).Nodup) :
    (sortFields fields).Perm fields :=
  foldl_insertField_perm [] fields hnames

theorem canonicalItems_of_forall {items : List Json} (h : ∀ item ∈ items, item.canonical = item) :
    canonicalItems items = items := by
  induction items with
  | nil => rw [canonicalItems]
  | cons item rest ih =>
      obtain ⟨hitem, hrest⟩ := List.forall_mem_cons.1 h
      rw [canonicalItems, hitem, ih hrest]

theorem canonicalFields_of_forall {fields : List (String × Json)} (h : ∀ field ∈ fields, field.2.canonical = field.2) :
    canonicalFields fields = fields := by
  induction fields with
  | nil => rw [canonicalFields]
  | cons field rest ih =>
      obtain ⟨hfield, hrest⟩ := List.forall_mem_cons.1 h
      rw [canonicalFields, hfield, ih hrest]

/-- An ordered value is in canonical form. -/
theorem Ordered.canonical_eq {value : Json} (h : value.Ordered) : value.canonical = value := by
  induction h with
  | null | bool | int | real | str => simp [canonical]
  | arr _ ih => rw [canonical, canonicalItems_of_forall ih]
  | obj names _ ih => rw [canonical, canonicalFields_of_forall ih, sortFields_of_pairwise names]

end Json

end CodeAtlas
