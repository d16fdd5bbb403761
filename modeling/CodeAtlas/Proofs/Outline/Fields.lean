import CodeAtlas.Outline.Contract
import Mathlib.Data.List.Basic
/-!
# Fields of records

A record is read by the values that its fields are given. `Once` says that no field is given twice, and then `slots?`
finds for each field the value in its slot (`slots?_of_once`). A `Format` says what may be done to a record:
`Format.Change` reorders its fields, respells one, joins one that nobody asks for, or drops one that has a default.
`Format.Reads.change` says what a reader makes of the changed record.
-/

namespace CodeAtlas

namespace Contract

variable {α : Type} {fields : List Field} {field : Field} {given given' before after : List (String × Json)}
  {name : String} {value value' : Json}

@[simp] theorem one_matches (own other : String) : (one own).matches other = decide (other = own) := by
  simp [Field.matches, one]

@[simp] theorem two_matches (camel snake other : String) :
    (two camel snake).matches other = (decide (other = camel) || decide (other = snake)) := by
  simp [Field.matches, two]

@[simp] theorem records_matches (own other : String) : (records own fields).matches other = decide (other = own) := by
  simp [Field.matches, records]

@[simp] theorem Field.values_nil (field : Field) : field.values [] = [] := rfl

@[simp] theorem Field.values_cons (field : Field) (name : String) (value : Json) (given : List (String × Json)) :
    field.values ((name, value) :: given) =
      if field.matches name then value :: field.values given else field.values given := by
  simp only [Field.values, List.filter_cons]
  split <;> rfl

theorem Field.values_append (field : Field) (given given' : List (String × Json)) :
    field.values (given ++ given') = field.values given ++ field.values given' := by
  simp [Field.values]

theorem Field.not_matches_of_values_eq_nil (field : Field) {p : String × Json} (h : field.values given = [])
    (hp : p ∈ given) : ¬ field.matches p.1 := by
  simp only [Field.values, List.map_eq_nil_iff, List.filter_eq_nil_iff] at h
  exact h p hp

theorem Field.values_perm (field : Field) (h : given.Perm given') : (field.values given).Perm (field.values given') :=
  (h.filter _).map _

/-- The value given for a field, where there is one. -/
def Field.slot (field : Field) (given : List (String × Json)) : Option Json := (field.values given).head?

/-- No field is given twice. -/
def Once (fields : List Field) (given : List (String × Json)) : Prop :=
  ∀ field ∈ fields, (field.values given).length ≤ 1

theorem slots?_of_once (once : Once fields given) : slots? fields given = some (fields.map (·.slot given)) := by
  unfold slots?
  induction fields with
  | nil => rfl
  | cons field rest ih =>
      have hfield := once field List.mem_cons_self
      rw [List.mapM_cons, ih fun other mem => once other (List.mem_cons_of_mem _ mem)]
      rcases h : field.values given with _ | ⟨value, _ | ⟨other, more⟩⟩
      · simp [Field.slot, h]
      · simp [Field.slot, h]
      · simp [h] at hfield

theorem once_of_slots? {slots : List (Option Json)} (hslots : slots? fields given = some slots) :
    Once fields given := by
  unfold slots? at hslots
  induction fields generalizing slots with
  | nil => simp [Once]
  | cons field rest ih =>
      simp only [List.mapM_cons, Option.bind_eq_bind, Option.bind_eq_some_iff] at hslots
      obtain ⟨slot, hslot, others, hothers, -⟩ := hslots
      refine List.forall_mem_cons.2 ⟨?_, ih hothers⟩
      rcases h : field.values given with _ | ⟨value, _ | ⟨other, more⟩⟩
      · simp
      · simp
      · simp [h] at hslot

theorem slots?_congr (h : ∀ field ∈ fields, field.values given' = field.values given) :
    slots? fields given' = slots? fields given := by
  unfold slots?
  induction fields with
  | nil => rfl
  | cons field rest ih =>
      rw [List.mapM_cons, List.mapM_cons, h field List.mem_cons_self,
        ih fun other mem => h other (List.mem_cons_of_mem _ mem)]

/-- A record is read through the slots of its fields. -/
structure BySlots (fields : List Field) (read : Json → Option α) : Prop where
  eq_none : ∀ {given : List (String × Json)}, slots? fields given = none → read (.obj given) = none
  congr : ∀ {given given' : List (String × Json)},
    slots? fields given' = slots? fields given → read (.obj given') = read (.obj given)

theorem BySlots.once {read : Json → Option α} (hread : BySlots fields read) {a : α}
    (h : read (.obj given) = some a) : Once fields given := by
  cases hslots : slots? fields given with
  | none =>
      rw [hread.eq_none hslots] at h
      cases h
  | some slots => exact once_of_slots? hslots

/-- A field that is given once and stands at one place stands nowhere else. -/
theorem Once.values_middle (once : Once fields (before ++ (name, value) :: after)) (mem : field ∈ fields)
    (hname : field.matches name) : field.values before = [] ∧ field.values after = [] := by
  have hlength := once field mem
  rw [Field.values_append, Field.values_cons, if_pos hname, List.length_append, List.length_cons] at hlength
  exact ⟨List.eq_nil_of_length_eq_zero (by omega), List.eq_nil_of_length_eq_zero (by omega)⟩

theorem Once.slot_middle (once : Once fields (before ++ (name, value) :: after)) (mem : field ∈ fields)
    (hname : field.matches name) : field.slot (before ++ (name, value) :: after) = some value := by
  obtain ⟨hbefore, -⟩ := once.values_middle mem hname
  simp [Field.slot, Field.values_append, hname, hbefore]

theorem Once.replace (once : Once fields (before ++ (name, value) :: after)) :
    Once fields (before ++ (name, value') :: after) := by
  intro field mem
  have hlength := once field mem
  simp only [Field.values_append, Field.values_cons] at hlength ⊢
  split at hlength <;> simp_all

theorem Once.slot_replace (once : Once fields (before ++ (name, value) :: after)) (value' : Json) :
    ∀ field ∈ fields, field.slot (before ++ (name, value') :: after) =
      if field.matches name then some value' else field.slot (before ++ (name, value) :: after) := by
  intro field mem
  split
  case isTrue hname => exact once.replace.slot_middle mem hname
  case isFalse hname => simp [Field.slot, Field.values_append, hname]

theorem Once.erase (once : Once fields (before ++ (name, value) :: after)) : Once fields (before ++ after) := by
  intro field mem
  have hlength := once field mem
  simp only [Field.values_append, Field.values_cons] at hlength ⊢
  split at hlength
  case isTrue =>
    simp only [List.length_append, List.length_cons] at hlength ⊢
    omega
  case isFalse => exact hlength

theorem Once.slot_erase (once : Once fields (before ++ (name, value) :: after)) :
    ∀ field ∈ fields, field.slot (before ++ after) =
      if field.matches name then none else field.slot (before ++ (name, value) :: after) := by
  intro field mem
  split
  case isTrue hname =>
    obtain ⟨hbefore, hafter⟩ := once.values_middle mem hname
    simp [Field.slot, Field.values_append, hbefore, hafter]
  case isFalse hname => simp [Field.slot, Field.values_append, hname]

theorem Once.eq_of_mem {p q : String × Json} (once : Once fields given) (mem : field ∈ fields) (hp : p ∈ given)
    (hq : q ∈ given) (hpname : field.matches p.1) (hqname : field.matches q.1) : p = q := by
  obtain ⟨before, after, rfl⟩ := List.append_of_mem hp
  obtain ⟨hbefore, hafter⟩ := once.values_middle mem hpname
  rcases List.mem_append.1 hq with hq | hq
  · exact absurd hqname (field.not_matches_of_values_eq_nil hbefore hq)
  · rcases List.mem_cons.1 hq with rfl | hq
    · rfl
    · exact absurd hqname (field.not_matches_of_values_eq_nil hafter hq)

/-- Among the values of a field that is given once, order does not matter. -/
theorem Once.values_eq_of_perm (once : Once fields given) (mem : field ∈ fields) (h : given'.Perm given) :
    field.values given' = field.values given := by
  have hperm := field.values_perm h
  have hlength := once field mem
  rcases hvalues : field.values given with _ | ⟨value, _ | ⟨other, more⟩⟩
  · rw [hvalues] at hperm
    exact hperm.eq_nil
  · rw [hvalues] at hperm
    exact List.perm_singleton.1 hperm
  · simp [hvalues] at hlength

/-- What may be done to a record: its fields, the second spellings of their names, and, for each name that may be
missing, what the record stands for without it. -/
structure Format (α : Type) where
  fields : List Field
  aliases : List (String × String)
  defaults : List (String × (α → α))

/-- A change to a record, with its effect on what the record stands for. -/
inductive Format.Change (format : Format α) : List (String × Json) → List (String × Json) → (α → α) → Prop
  | reordered {given given' : List (String × Json)} (h : given'.Perm given) : format.Change given given' id
  | respelled (before after : List (String × Json)) (value : Json) {camel snake : String}
      (h : (camel, snake) ∈ format.aliases) :
      format.Change (before ++ (camel, value) :: after) (before ++ (snake, value) :: after) id
  | joined (given : List (String × Json)) (name : String) (value : Json)
      (h : ∀ field ∈ format.fields, name ∉ field.names) : format.Change given ((name, value) :: given) id
  | dropped (before after : List (String × Json)) (value : Json) {name : String} {reset : α → α}
      (h : (name, reset) ∈ format.defaults) : format.Change (before ++ (name, value) :: after) (before ++ after) reset

/-- Both spellings of one field are given. -/
def Format.SpelledTwice (format : Format α) (given : List (String × Json)) : Prop :=
  ∃ camel snake, (camel, snake) ∈ format.aliases ∧ camel ∈ given.map Prod.fst ∧ snake ∈ given.map Prod.fst

/-- A reader of records looks at the slots of their fields only, and takes a missing field for its default. -/
structure Format.Reads (format : Format α) (read : Json → Option α) : Prop where
  aliases : ∀ pair ∈ format.aliases, pair.1 ≠ pair.2 ∧
    (∃ field ∈ format.fields, field.matches pair.1) ∧
      ∀ field ∈ format.fields, field.matches pair.1 = field.matches pair.2
  slots : BySlots format.fields read
  reset : ∀ {before after : List (String × Json)} {name : String} {value : Json} {reset : α → α} {a : α},
    (name, reset) ∈ format.defaults → read (.obj (before ++ (name, value) :: after)) = some a →
      read (.obj (before ++ after)) = some (reset a)

namespace Format

variable {format : Format α} {read : Json → Option α} {effect : α → α} {a : α}

/-- One change to a record changes what is read by its effect. -/
theorem Reads.change (reads : format.Reads read) (hchange : format.Change given given' effect)
    (h : read (.obj given) = some a) : read (.obj given') = some (effect a) := by
  cases hchange with
  | reordered hperm =>
      have once := reads.slots.once h
      exact (reads.slots.congr <| slots?_congr fun field mem => once.values_eq_of_perm mem hperm).trans h
  | respelled before after value halias =>
      refine (reads.slots.congr <| slots?_congr fun field mem => ?_).trans h
      have hmatches := (reads.aliases _ halias).2.2 field mem
      rw [Field.values_append, Field.values_append, Field.values_cons, Field.values_cons, hmatches]
  | joined given name value hname =>
      refine (reads.slots.congr <| slots?_congr fun field mem => ?_).trans h
      rw [Field.values_cons, if_neg (by simpa [Field.matches] using hname field mem)]
  | dropped before after value hdefault => exact reads.reset hdefault h

/-- A record that gives one field under both spellings is not read. -/
theorem Reads.eq_none_of_spelledTwice (reads : format.Reads read) (h : format.SpelledTwice given) :
    read (.obj given) = none := by
  obtain ⟨camel, snake, halias, hcamel, hsnake⟩ := h
  obtain ⟨hne, ⟨field, mem, hmatches⟩, hsame⟩ := reads.aliases _ halias
  obtain ⟨⟨_, value⟩, hvalue, rfl⟩ := List.mem_map.1 hcamel
  obtain ⟨⟨_, value'⟩, hvalue', rfl⟩ := List.mem_map.1 hsnake
  by_contra hread
  obtain ⟨a, ha⟩ := Option.ne_none_iff_exists'.1 hread
  have hsame' := (reads.slots.once ha).eq_of_mem mem hvalue hvalue' hmatches (hsame field mem ▸ hmatches)
  exact hne (congrArg Prod.fst hsame')

end Format

end Contract

end CodeAtlas
