import CodeAtlas.Proofs.Graph.Placeholder
import CodeAtlas.Proofs.Json.Ordered
/-!
# Fields of a stored record

A record is stored with its fields sorted. What was given under a name is found under it, as long as the names differ.
-/

namespace CodeAtlas.Json

theorem lookup_eq_some_of_mem {name : String} {value : Json} {fields : List (String × Json)}
    (hnames : (fields.map Prod.fst).Nodup) (h : (name, value) ∈ fields) : fields.lookup name = some value := by
  obtain ⟨before, after, rfl⟩ := List.append_of_mem h
  rw [List.lookup_eq_some_iff]
  refine ⟨before, after, rfl, ?_⟩
  intro field hfield
  rw [bne_iff_ne]
  rintro rfl
  rw [List.map_append, List.map_cons, List.nodup_middle, List.nodup_cons] at hnames
  exact hnames.1 (List.mem_append_left _ (List.mem_map.2 ⟨field, hfield, rfl⟩))

theorem mem_canonicalFields {name : String} {value : Json} {fields : List (String × Json)}
    (h : (name, value) ∈ fields) : (name, value.canonical) ∈ canonicalFields fields := by
  induction fields with
  | nil => exact absurd h (by simp)
  | cons field rest ih =>
      rw [canonicalFields]
      rcases List.mem_cons.1 h with h | h
      · rw [← h]
        exact List.mem_cons_self
      · exact List.mem_cons_of_mem _ (ih h)

/-- A field of a record is found in its stored form. -/
theorem get?_canonical_of_mem {name : String} {value : Json} {fields : List (String × Json)}
    (hnames : (fields.map Prod.fst).Nodup) (h : (name, value) ∈ fields) :
    (record fields).canonical.get? name = some value.canonical := by
  have hsorted := sortFields_perm hnames
  have hnames' : ((canonicalFields (sortFields fields)).map Prod.fst).Nodup := by
    rw [map_fst_canonicalFields]
    exact (hsorted.map _).nodup_iff.2 hnames
  have hsorted' := sortFields_perm hnames'
  simp only [record, canonical, get?]
  refine lookup_eq_some_of_mem ((hsorted'.map _).nodup_iff.2 hnames') (hsorted'.mem_iff.2 ?_)
  exact mem_canonicalFields (hsorted.mem_iff.2 h)

/-- The fields of a stored record are those that it was given. -/
theorem get?_canonical {fields : List (String × Json)} (hnames : (fields.map Prod.fst).Nodup) (name : String) :
    (record fields).canonical.get? name = (fields.lookup name).map Json.canonical := by
  cases hfound : fields.lookup name with
  | none =>
      refine get?_canonical_record ?_
      intro hmem
      obtain ⟨field, hfield, rfl⟩ := List.mem_map.1 hmem
      rw [lookup_eq_some_of_mem hnames hfield] at hfound
      exact absurd hfound (by simp)
  | some value =>
      obtain ⟨before, after, rfl, _⟩ := List.lookup_eq_some_iff.1 hfound
      exact get?_canonical_of_mem hnames (by simp)

end CodeAtlas.Json
