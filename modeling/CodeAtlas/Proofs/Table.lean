import Mathlib.Data.List.Nodup
/-!
# Rows with ids and keys

Nodes, edges and files are kept alike: as rows, each with an id and a key that no other row has. A row is written under
its key. If there is a row with the key it is replaced and the id stays, or else the row is added with a new id.
-/

namespace CodeAtlas

/-- In a list without two elements that satisfy `p`, the search for one finds it. -/
theorem find?_eq_some_of_unique {α : Type*} {p : α → Bool} {l : List α}
    (hl : ∀ a ∈ l, ∀ b ∈ l, p a = true → p b = true → a = b) (a : α) :
    l.find? p = some a ↔ a ∈ l ∧ p a = true := by
  constructor
  · intro h
    exact ⟨List.mem_of_find?_eq_some h, List.find?_some h⟩
  · rintro ⟨hmem, hp⟩
    cases hf : l.find? p with
    | none => exact absurd hp (List.find?_eq_none.1 hf a hmem)
    | some b =>
        have hb := hl b (List.mem_of_find?_eq_some hf) a hmem (List.find?_some hf) hp
        rw [hb]

/-- In a list that grows by what is not known yet there is nothing but what it began with and what came. -/
theorem mem_or_mem_of_mem_foldl {α : Type*} {known : List α → α → Bool} {a : α} {l seen : List α}
    (h : a ∈ l.foldl (fun seen b => if known seen b then seen else seen ++ [b]) seen) : a ∈ seen ∨ a ∈ l := by
  induction l generalizing seen with
  | nil => exact Or.inl h
  | cons b rest ih =>
      rw [List.foldl_cons] at h
      split at h
      · exact (ih h).imp_right (List.mem_cons_of_mem b)
      · rcases ih h with hseen | hrest
        · rcases List.mem_append.1 hseen with hseen | hb
          · exact Or.inl hseen
          · exact Or.inr (List.mem_singleton.1 hb ▸ List.mem_cons_self)
        · exact Or.inr (List.mem_cons_of_mem b hrest)

/-- Ids and keys occur once, and the id to be given next is new. -/
structure Keyed {α β : Type*} (id : α → Int) (key : α → β) (next : Int) (rows : List α) : Prop where
  ids : (rows.map id).Nodup
  keys : (rows.map key).Nodup
  below : ∀ a ∈ rows, id a < next

namespace Keyed

variable {α β : Type*} {id : α → Int} {key : α → β} {next : Int} {rows : List α}

theorem eq_of_id (h : Keyed id key next rows) {a b : α} (ha : a ∈ rows) (hb : b ∈ rows) (hid : id a = id b) : a = b :=
  List.inj_on_of_nodup_map h.ids ha hb hid

theorem eq_of_key (h : Keyed id key next rows) {a b : α} (ha : a ∈ rows) (hb : b ∈ rows) (hkey : key a = key b) :
    a = b :=
  List.inj_on_of_nodup_map h.keys ha hb hkey

/-- The rows after one was replaced. -/
theorem mem_replace (h : Keyed id key next rows) {old : α} (hold : old ∈ rows) (new : α → α) (b : α) :
    b ∈ rows.map (fun a => if id a = id old then new a else a) ↔ b = new old ∨ (b ∈ rows ∧ key b ≠ key old) := by
  rw [List.mem_map]
  constructor
  · rintro ⟨a, ha, rfl⟩
    by_cases hid : id a = id old
    · rw [if_pos hid, h.eq_of_id ha hold hid]
      exact Or.inl rfl
    · rw [if_neg hid]
      exact Or.inr ⟨ha, fun hkey => hid (congrArg id (h.eq_of_key ha hold hkey))⟩
  · rintro (rfl | ⟨hb, hne⟩)
    · exact ⟨old, hold, if_pos rfl⟩
    · exact ⟨b, hb, if_neg fun hid => hne (congrArg key (h.eq_of_id hb hold hid))⟩

/-- A row can be replaced by one with the same id and key. -/
theorem replace (h : Keyed id key next rows) {old : α} (hold : old ∈ rows) {new : α → α} (hid : id (new old) = id old)
    (hkey : key (new old) = key old) :
    Keyed id key (next + 1) (rows.map fun a => if id a = id old then new a else a) := by
  have hsame : ∀ a ∈ rows, id (if id a = id old then new a else a) = id a ∧
      key (if id a = id old then new a else a) = key a := by
    intro a ha
    by_cases h' : id a = id old
    · rw [h.eq_of_id ha hold h', if_pos rfl]
      exact ⟨hid, hkey⟩
    · rw [if_neg h']
      exact ⟨rfl, rfl⟩
  refine ⟨?_, ?_, ?_⟩
  · have hids := List.map_congr_left fun a ha => (hsame a ha).1
    rw [List.map_map]
    exact hids ▸ h.ids
  · have hkeys := List.map_congr_left fun a ha => (hsame a ha).2
    rw [List.map_map]
    exact hkeys ▸ h.keys
  · intro b hb
    obtain ⟨a, ha, rfl⟩ := List.mem_map.1 hb
    have hlt := h.below a ha
    rw [(hsame a ha).1]
    omega

/-- The rows after one was added. -/
theorem mem_add {a : α} (hnew : ∀ b ∈ rows, key b ≠ key a) (b : α) :
    b ∈ rows ++ [a] ↔ b = a ∨ (b ∈ rows ∧ key b ≠ key a) := by
  rw [List.mem_append, List.mem_singleton]
  constructor
  · rintro (hb | rfl)
    · exact Or.inr ⟨hb, hnew b hb⟩
    · exact Or.inl rfl
  · rintro (rfl | ⟨hb, _⟩)
    · exact Or.inr rfl
    · exact Or.inl hb

/-- A row with a new key can be added under the next id. -/
theorem add (h : Keyed id key next rows) {a : α} (hid : id a = next) (hnew : ∀ b ∈ rows, key b ≠ key a) :
    Keyed id key (next + 1) (rows ++ [a]) := by
  refine ⟨?_, ?_, ?_⟩
  · rw [List.map_append, List.nodup_append]
    refine ⟨h.ids, by simp, ?_⟩
    intro x hx y hy hxy
    obtain ⟨b, hb, rfl⟩ := List.mem_map.1 hx
    have hlt := h.below b hb
    rw [List.map_singleton, List.mem_singleton] at hy
    omega
  · rw [List.map_append, List.nodup_append]
    refine ⟨h.keys, by simp, ?_⟩
    intro x hx y hy hxy
    obtain ⟨b, hb, rfl⟩ := List.mem_map.1 hx
    rw [List.map_singleton, List.mem_singleton] at hy
    exact hnew b hb (hxy.trans hy)
  · intro b hb
    rcases (mem_add hnew b).1 hb with rfl | ⟨hb, _⟩
    · omega
    · have hlt := h.below b hb
      omega

end Keyed

end CodeAtlas
