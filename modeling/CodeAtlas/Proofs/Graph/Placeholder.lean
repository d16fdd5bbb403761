import CodeAtlas.Proofs.Graph.Identity
/-!
# Which nodes are placeholders

The metadata of a node say whether it is inferred. Metadata given as a record without such a field never do, those of
a placeholder do, and a demotion makes any record say so.
-/

namespace CodeAtlas

namespace Json

theorem lookup_insertField_self (name : String) (value : Json) (fields : List (String × Json)) :
    (insertField name value fields).lookup name = some value := by
  induction fields with
  | nil => simp [insertField]
  | cons field rest ih =>
      obtain ⟨other, held⟩ := field
      unfold insertField
      split
      · simp
      · rename_i hne
        split
        · simp
        · rw [List.lookup_cons, beq_false_of_ne hne]
          exact ih

theorem name_of_mem_insertField {name : String} {value : Json} {fields : List (String × Json)}
    {field : String × Json} (h : field ∈ insertField name value fields) :
    field.1 = name ∨ field.1 ∈ fields.map Prod.fst := by
  induction fields with
  | nil =>
      simp only [insertField, List.mem_singleton] at h
      exact Or.inl (by rw [h])
  | cons head rest ih =>
      obtain ⟨other, held⟩ := head
      unfold insertField at h
      split at h
      · rcases List.mem_cons.1 h with rfl | h
        · exact Or.inl rfl
        · exact Or.inr (List.mem_cons_of_mem _ (List.mem_map_of_mem h))
      · split at h
        · rcases List.mem_cons.1 h with rfl | h
          · exact Or.inl rfl
          · exact Or.inr (List.mem_map_of_mem h)
        · rcases List.mem_cons.1 h with rfl | h
          · exact Or.inr List.mem_cons_self
          · rcases ih h with h | h
            · exact Or.inl h
            · exact Or.inr (List.mem_cons_of_mem _ h)

/-- Sorting fields invents no names. -/
theorem name_of_mem_sortFields {fields : List (String × Json)} {field : String × Json}
    (h : field ∈ sortFields fields) : field.1 ∈ fields.map Prod.fst := by
  have hfold : ∀ (fields sorted : List (String × Json)) (field : String × Json),
      field ∈ fields.foldl (fun sorted field => insertField field.1 field.2 sorted) sorted →
      field.1 ∈ fields.map Prod.fst ∨ field.1 ∈ sorted.map Prod.fst := by
    intro fields
    induction fields with
    | nil =>
        intro sorted field h
        exact Or.inr (List.mem_map_of_mem h)
    | cons head rest ih =>
        intro sorted field h
        rcases ih _ field h with h | h
        · exact Or.inl (List.mem_cons_of_mem _ h)
        · obtain ⟨other, hother, hname⟩ := List.mem_map.1 h
          rw [← hname]
          rcases name_of_mem_insertField hother with h | h
          · rw [h]
            exact Or.inl List.mem_cons_self
          · exact Or.inr h
  rcases hfold fields [] field h with h | h
  · exact h
  · exact absurd h (by simp)

theorem map_fst_canonicalFields (fields : List (String × Json)) :
    (canonicalFields fields).map Prod.fst = fields.map Prod.fst := by
  induction fields with
  | nil => simp [canonicalFields]
  | cons field rest ih =>
      obtain ⟨name, value⟩ := field
      rw [canonicalFields, List.map_cons, List.map_cons, ih]

theorem lookup_eq_none_of_not_mem {name : String} {fields : List (String × Json)}
    (h : name ∉ fields.map Prod.fst) : fields.lookup name = none := by
  rw [List.lookup_eq_none_iff]
  intro field hfield
  rw [bne_iff_ne]
  rintro rfl
  exact h (List.mem_map_of_mem hfield)

/-- A record has no field in its sorted form that it was not given. -/
theorem get?_canonical_record {name : String} {fields : List (String × Json)} (h : name ∉ fields.map Prod.fst) :
    (record fields).canonical.get? name = none := by
  simp only [record, canonical, get?]
  apply lookup_eq_none_of_not_mem
  intro hmem
  obtain ⟨field, hfield, rfl⟩ := List.mem_map.1 hmem
  have hname := name_of_mem_sortFields hfield
  rw [map_fst_canonicalFields] at hname
  obtain ⟨other, hother, hsame⟩ := List.mem_map.1 hname
  rw [← hsame] at h
  exact h (name_of_mem_sortFields hother)

/-- The value is a record. -/
def IsRecord : Json → Prop
  | .obj _ => True
  | _ => False

theorem IsRecord.canonical {value : Json} (h : value.IsRecord) : value.canonical.IsRecord := by
  cases value <;> simp_all [IsRecord, Json.canonical]

theorem isRecord_record (fields : List (String × Json)) : (record fields).IsRecord := trivial

theorem IsRecord.set {value : Json} (h : value.IsRecord) (name : String) (v : Json) : (value.set name v).IsRecord := by
  cases value <;> simp_all [IsRecord, Json.set]

end Json

namespace Node

theorem isInferred_placeholder (k : NodeKind) (key : String) (id : Int) :
    ((Graph.placeholder k key).stored id).isInferred = true := rfl

theorem isInferred_demoted {n : Node} (h : n.metadata.IsRecord) : n.demoted.isInferred = true := by
  cases hm : n.metadata with
  | obj fields => simp [demoted, isInferred, hm, Json.set, Json.get?, Json.lookup_insertField_self, Json.bool?]
  | _ => simp [hm, Json.IsRecord] at h

theorem isInferred_stored_record {n : NewNode} {fields : List (String × Json)} (hn : n.metadata = .record fields)
    (h : "inferred" ∉ fields.map Prod.fst) (id : Int) : (n.stored id).isInferred = false := by
  simp [isInferred, NewNode.stored, hn, Json.get?_canonical_record h]

end Node

end CodeAtlas
