import Mathlib.Data.List.Basic
/-!
# Stable sorting

Elements that stand before each other form a class. A merge sort keeps every class in its order (`filter_mergeSort`), and a
sorted list is known by its classes (`eq_of_filter_eq`). So a list is the sorted form of another as soon as it is sorted and
has the same classes (`mergeSort_eq_of_filter_eq`). A comparison by which nothing stands before anything orders nothing; a
merge sort then turns the list around (`mergeSort_of_forall_not_le`).
-/

namespace CodeAtlas

section

variable {α : Type*} {le : α → α → Bool} {l l' : List α}

/-- Whether two elements stand before each other. -/
def Alike (le : α → α → Bool) (a b : α) : Bool := le a b && le b a

/-- Any two elements can be compared. -/
structure Preorders (le : α → α → Bool) : Prop where
  trans : ∀ a b c, le a b = true → le b c = true → le a c = true
  total : ∀ a b, (le a b || le b a) = true

theorem Preorders.refl (h : Preorders le) (a : α) : le a a = true := by
  simpa using h.total a a

theorem Preorders.le_of_alike (h : Preorders le) {a b c : α} (hb : Alike le a b = true) (hc : Alike le a c = true) :
    le b c = true := by
  simp only [Alike, Bool.and_eq_true] at hb hc
  exact h.trans b a c hb.2 hc.1

/-- A merge sort keeps every class as it is. -/
theorem filter_mergeSort (h : Preorders le) (l : List α) (a : α) :
    (l.mergeSort le).filter (Alike le a) = l.filter (Alike le a) := by
  have hsorted : (l.filter (Alike le a)).Pairwise fun b c => le b c = true := by
    apply List.pairwise_of_forall_mem_list
    intro b hb c hc
    exact h.le_of_alike (List.mem_filter.1 hb).2 (List.mem_filter.1 hc).2
  have hsub : (l.filter (Alike le a)).Sublist ((l.mergeSort le).filter (Alike le a)) := by
    have hkept := (List.sublist_mergeSort h.trans h.total hsorted List.filter_sublist).filter (Alike le a)
    simpa [List.filter_filter] using hkept
  exact (hsub.eq_of_length ((List.mergeSort_perm l le).filter _).length_eq.symm).symm

theorem mem_iff_of_filter_eq (h : Preorders le) (hclass : ∀ a, l.filter (Alike le a) = l'.filter (Alike le a)) (a : α) :
    a ∈ l ↔ a ∈ l' := by
  have hself : Alike le a a = true := by simp [Alike, h.refl]
  have hiff : a ∈ l.filter (Alike le a) ↔ a ∈ l'.filter (Alike le a) := by rw [hclass a]
  simpa [List.mem_filter, hself] using hiff

/-- Sorted lists with the same classes are equal. -/
theorem eq_of_filter_eq (h : Preorders le) (hl : l.Pairwise fun a b => le a b = true)
    (hl' : l'.Pairwise fun a b => le a b = true) (hclass : ∀ a, l.filter (Alike le a) = l'.filter (Alike le a)) : l = l' := by
  have hmem := mem_iff_of_filter_eq h hclass
  induction l generalizing l' with
  | nil =>
      cases l' with
      | nil => rfl
      | cons b u => exact absurd ((hmem b).2 List.mem_cons_self) List.not_mem_nil
  | cons a t ih =>
      cases l' with
      | nil => exact absurd ((hmem a).1 List.mem_cons_self) List.not_mem_nil
      | cons b u =>
          rw [List.pairwise_cons] at hl hl'
          -- both heads stand before all else, so they are alike and lead the same class
          have hab : le a b = true := by
            rcases List.mem_cons.1 ((hmem b).2 List.mem_cons_self) with rfl | hb
            · exact h.refl b
            · exact hl.1 b hb
          have hba : le b a = true := by
            rcases List.mem_cons.1 ((hmem a).1 List.mem_cons_self) with rfl | ha
            · exact h.refl a
            · exact hl'.1 a ha
          have hfirst := hclass a
          rw [List.filter_cons_of_pos (by simp [Alike, h.refl]), List.filter_cons_of_pos (by simp [Alike, hab, hba]),
            List.cons.injEq] at hfirst
          obtain rfl := hfirst.1
          have hrest : ∀ c, t.filter (Alike le c) = u.filter (Alike le c) := by
            intro c
            have hc := hclass c
            rw [List.filter_cons, List.filter_cons] at hc
            split at hc
            · exact (List.cons.inj hc).2
            · exact hc
          rw [ih hl.2 hl'.2 hrest (mem_iff_of_filter_eq h hrest)]

/-- A sorted list with the classes of another is its sorted form. -/
theorem mergeSort_eq_of_filter_eq (h : Preorders le) (hl' : l'.Pairwise fun a b => le a b = true)
    (hclass : ∀ a, l.filter (Alike le a) = l'.filter (Alike le a)) : l.mergeSort le = l' := by
  apply eq_of_filter_eq h (List.pairwise_mergeSort h.trans h.total l) hl'
  intro a
  rw [filter_mergeSort h, hclass]

/-! ## Lists in which nothing stands before anything -/

/-- Where nothing stands before anything, a merge takes the second list first. -/
theorem merge_of_forall_not_le (h : ∀ a ∈ l, ∀ b ∈ l', le a b = false) : l.merge l' le = l' ++ l := by
  induction l' with
  | nil => rw [List.merge_right, List.nil_append]
  | cons b rest ih =>
      have hrest : l.merge rest le = rest ++ l := ih fun a ha c hc => h a ha c (List.mem_cons_of_mem _ hc)
      cases l with
      | nil => rw [List.nil_merge, List.append_nil]
      | cons a front =>
          rw [List.cons_merge_cons_neg le front rest (by simp [h a List.mem_cons_self b List.mem_cons_self]), hrest,
            List.cons_append]

/-- Where nothing stands before anything, a merge sort turns a list around. -/
theorem mergeSort_of_forall_not_le (h : ∀ a ∈ l, ∀ b ∈ l, le a b = false) : l.mergeSort le = l.reverse := by
  -- the sort halves the list, so the induction is on its length
  induction hlength : l.length using Nat.strongRecOn generalizing l with
  | _ length ih =>
      cases l with
      | nil => exact List.mergeSort_nil
      | cons a rest =>
          cases rest with
          | nil => exact List.mergeSort_singleton a
          | cons b rest =>
              rw [List.mergeSort]
              simp only [List.MergeSort.Internal.splitInTwo_fst, List.MergeSort.Internal.splitInTwo_snd]
              generalize hl : a :: b :: rest = l at h hlength ⊢
              have hmany : 2 ≤ l.length := by simp [← hl]
              have hfirst := List.take_subset ((l.length + 1) / 2) l
              have hsecond := List.drop_subset ((l.length + 1) / 2) l
              rw [ih _ (by rw [← hlength, List.length_take]; omega) (fun a ha b hb => h a (hfirst ha) b (hfirst hb)) rfl,
                ih _ (by rw [← hlength, List.length_drop]; omega) (fun a ha b hb => h a (hsecond ha) b (hsecond hb)) rfl,
                merge_of_forall_not_le fun a ha b hb =>
                  h a (hfirst (List.mem_reverse.1 ha)) b (hsecond (List.mem_reverse.1 hb)),
                ← List.reverse_append, List.take_append_drop]

end

end CodeAtlas
