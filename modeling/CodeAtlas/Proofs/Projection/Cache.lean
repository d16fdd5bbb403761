import CodeAtlas.Projection.Cache
import CodeAtlas.Proofs.Graph.Identity
/-!
# What the cache of a run tells

The look-ups of a cache after each of its operations, and `BuildCache.Valid`: every id that the cache gives for a
kind and key, in either layer, is the id of the node with that kind and key.
-/

namespace CodeAtlas

namespace NodeIds

theorem get?_erase (ids : NodeIds) (k k' : NodeKind) (key key' : String) :
    (ids.erase k key).get? k' key' = if (k', key') = (k, key) then none else ids.get? k' key' := by
  induction ids with
  | nil => simp [erase, get?]
  | cons entry rest ih =>
      obtain ⟨i, id⟩ := entry
      simp only [erase, get?] at ih ⊢
      by_cases hi : i = (k, key)
      · rw [List.filter_cons_of_neg (by simpa using hi), ih, List.lookup_cons]
        by_cases hq : (k', key') = (k, key)
        · rw [if_pos hq, if_pos hq]
        · have hne : ((k', key') == i) = false := by
            rw [hi]
            exact beq_false_of_ne hq
          rw [if_neg hq, if_neg hq, hne]
      · rw [List.filter_cons_of_pos (by simpa using hi), List.lookup_cons, List.lookup_cons]
        cases hq : ((k', key') == i) with
        | true =>
            have heq : (k', key') = i := eq_of_beq hq
            rw [if_neg (by rw [heq]; exact hi)]
        | false => exact ih

theorem get?_insert (ids : NodeIds) (k k' : NodeKind) (key key' : String) (id : Int) :
    (ids.insert k key id).get? k' key' = if (k', key') = (k, key) then some id else ids.get? k' key' := by
  have herase := get?_erase ids k k' key key'
  simp only [insert, get?] at herase ⊢
  rw [List.lookup_cons]
  cases hq : ((k', key') == (k, key)) with
  | true => rw [if_pos (eq_of_beq hq)]
  | false =>
      have hne : (k', key') ≠ (k, key) := ne_of_beq_false hq
      rw [herase, if_neg hne, if_neg hne]

theorem get?_union (ids other : NodeIds) (k : NodeKind) (key : String) :
    (ids.union other).get? k key = (other.get? k key).or (ids.get? k key) := by
  induction other with
  | nil => simp [union, get?]
  | cons entry rest ih =>
      obtain ⟨⟨k', key'⟩, id⟩ := entry
      have hunion : ids.union (((k', key'), id) :: rest) = (ids.union rest).insert k' key' id := rfl
      rw [hunion, get?_insert, ih]
      simp only [get?, List.lookup_cons]
      cases hq : ((k, key) == (k', key')) with
      | true =>
          rw [if_pos (eq_of_beq hq)]
          rfl
      | false => rw [if_neg (ne_of_beq_false hq)]

/-- Every id is the id of the node it is recorded for. -/
def Valid (ids : NodeIds) (g : Graph) : Prop := ∀ k key id, ids.get? k key = some id → g.Names id (k, key)

theorem Valid.insert {ids : NodeIds} {g : Graph} (h : ids.Valid g) {k : NodeKind} {key : String} {id : Int}
    (hid : g.Names id (k, key)) : (ids.insert k key id).Valid g := by
  intro k' key' id' hget
  rw [get?_insert] at hget
  split at hget
  · rename_i heq
    rw [Option.some.injEq] at hget
    rw [heq, ← hget]
    exact hid
  · exact h k' key' id' hget

theorem Valid.mono {ids : NodeIds} {g g' : Graph} (h : ids.Valid g)
    (hgg : ∀ id i, g.Names id i → g'.Names id i) : ids.Valid g' :=
  fun k key id hget => hgg _ _ (h k key id hget)

/-- Erasing a record allows its node to go. -/
theorem Valid.erase {ids : NodeIds} {g g' : Graph} (h : ids.Valid g) {k : NodeKind} {key : String}
    (hgg : ∀ id i, g.Names id i → i ≠ (k, key) → g'.Names id i) : (ids.erase k key).Valid g' := by
  intro k' key' id' hget
  rw [get?_erase] at hget
  split at hget
  · exact absurd hget (by simp)
  · rename_i hne
    exact hgg _ _ (h k' key' id' hget) hne

theorem Valid.union {ids other : NodeIds} {g : Graph} (h : ids.Valid g) (h' : other.Valid g) :
    (ids.union other).Valid g := by
  intro k key id hget
  rw [get?_union, Option.or_eq_some_iff] at hget
  rcases hget with hget | ⟨_, hget⟩
  · exact h' k key id hget
  · exact h k key id hget

end NodeIds

namespace BuildCache

/-- Every id in the cache is the id of the node it is recorded for. -/
def Valid (c : BuildCache) (g : Graph) : Prop := c.committed.Valid g ∧ c.pending.Valid g

theorem valid_empty (g : Graph) : ({} : BuildCache).Valid g := by
  constructor <;> intro k key id hget <;> exact absurd hget (by simp [NodeIds.get?])

theorem Valid.lookup {c : BuildCache} {g : Graph} (h : c.Valid g) {k : NodeKind} {key : String} {id : Int}
    (hget : c.lookup k key = some id) : g.Names id (k, key) := by
  rw [BuildCache.lookup, Option.or_eq_some_iff] at hget
  rcases hget with hget | ⟨_, hget⟩
  · exact h.2 k key id hget
  · exact h.1 k key id hget

theorem Valid.mono {c : BuildCache} {g g' : Graph} (h : c.Valid g)
    (hgg : ∀ id i, g.Names id i → g'.Names id i) : c.Valid g' :=
  ⟨h.1.mono hgg, h.2.mono hgg⟩

theorem Valid.record {c : BuildCache} {g : Graph} (h : c.Valid g) {k : NodeKind} {key : String} {id : Int}
    (hid : g.Names id (k, key)) : (c.record k key id).Valid g :=
  ⟨h.1, h.2.insert hid⟩

theorem Valid.forget {c : BuildCache} {g g' : Graph} (h : c.Valid g) {k : NodeKind} {key : String}
    (hgg : ∀ id i, g.Names id i → i ≠ (k, key) → g'.Names id i) : (c.forget k key).Valid g' :=
  ⟨h.1.erase hgg, h.2.erase hgg⟩

theorem Valid.commit {c : BuildCache} {g : Graph} (h : c.Valid g) : c.commit.Valid g :=
  ⟨h.1.union h.2, (valid_empty g).2⟩

theorem isBuilt_record (c : BuildCache) (k k' : NodeKind) (key key' : String) (id : Int) :
    (c.record k key id).isBuilt k' key' = (decide ((k', key') = (k, key)) || c.isBuilt k' key') := by
  simp only [isBuilt, lookup, record, NodeIds.get?_insert]
  by_cases h : (k', key') = (k, key) <;> simp [h]

/-- Forgetting a node builds no other. -/
theorem isBuilt_of_forget {c : BuildCache} {k k' : NodeKind} {key key' : String}
    (h : (c.forget k key).isBuilt k' key' = true) : c.isBuilt k' key' = true := by
  simp only [isBuilt, lookup, forget, NodeIds.get?_erase] at h ⊢
  by_cases hi : (k', key') = (k, key)
  · simp [hi] at h
  · simpa [hi] using h

theorem lookup_commit (c : BuildCache) (k : NodeKind) (key : String) : c.commit.lookup k key = c.lookup k key := by
  simp only [lookup, commit, NodeIds.get?_union]
  simp [NodeIds.get?]

end BuildCache

end CodeAtlas
