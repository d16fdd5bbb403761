import CodeAtlas.Proofs.Inflection
import CodeAtlas.Proofs.Suggestion.Pairing
import Mathlib.Data.List.Induction
/-!
# Associations of one name

The associations of a model are to have different names. A key that the table holds is named by its column, or by the
table it refers to if the column has no stem, and nothing looks for another key of that name. A key that refers to the table
gets its plain name if that is free and a longer one otherwise, and nothing looks whether the longer one is free too. These two
are the only ways in which names are given twice (`names_nodup_iff`).
-/

namespace CodeAtlas.Suggestion

open Schema Inflection

/-- The name of the referred side as long as it is free. -/
def plainName (indexes : List Index) (k : ForeignKey) : String := (inverseSide k indexes).2

/-- The name of the referred side if the plain one is taken. -/
def longName (indexes : List Index) (k : ForeignKey) : String := plainName indexes k ++ "_as_" ++ ownerName k

variable {table model : String} {indexes : List Index} {used known : List String} {keys : List ForeignKey}

/-- All keys of a list are different if none is the key of an element before it. -/
theorem nodup_map_iff_split {α β : Type*} (f : α → β) (l : List α) :
    (l.map f).Nodup ↔ ∀ before a after, l = before ++ a :: after → f a ∉ before.map f := by
  constructor
  · rintro hnodup before a after rfl
    rw [List.map_append, List.map_cons] at hnodup
    exact fun hmem => (List.nodup_append.1 hnodup).2.2 _ hmem _ List.mem_cons_self rfl
  · intro h
    induction l using List.reverseRecOn with
    | nil => exact List.nodup_nil
    | append_singleton l a ih =>
        rw [List.map_append, List.map_singleton, ← List.concat_eq_append]
        refine List.Nodup.concat (h l a [] rfl) (ih ?_)
        rintro before b after rfl
        exact h before b (after ++ [a]) (by rw [List.append_assoc, List.cons_append])

/-! ## Keys that the table holds -/

theorem ownerName_of_stem {k : ForeignKey} {stem : String} (h : idStem? k.fromColumn = some stem) :
    ownerName k = stem := by
  rw [ownerName, h, Option.getD_some]

theorem ownerName_of_no_stem {k : ForeignKey} (h : idStem? k.fromColumn = none) :
    ownerName k = singularize k.toTable := by
  rw [ownerName, h, Option.getD_none]

/-- Columns with stems give their keys different names. -/
theorem fromColumn_eq_of_ownerName {k l : ForeignKey} (hk : idStem? k.fromColumn ≠ none) (hl : idStem? l.fromColumn ≠ none)
    (h : ownerName k = ownerName l) : k.fromColumn = l.fromColumn := by
  obtain ⟨s, hs⟩ := Option.ne_none_iff_exists'.1 hk
  obtain ⟨t, ht⟩ := Option.ne_none_iff_exists'.1 hl
  rw [ownerName_of_stem hs, ownerName_of_stem ht] at h
  rw [(idStem?_eq_some_iff.1 hs).1, (idStem?_eq_some_iff.1 ht).1, h]

/-- No key that the table holds is named after the table it refers to and like another one. -/
def HeldApart (table : String) (keys : List ForeignKey) (known : List String) : Prop :=
  ∀ k ∈ heldKeys table keys known, idStem? k.fromColumn = none →
    ∀ l ∈ heldKeys table keys known, l ≠ k → ownerName l ≠ singularize k.toTable

theorem nodup_ownerName_iff (hkeys : (keys.map fun k => (k.fromTable, k.fromColumn)).Nodup) :
    ((heldKeys table keys known).map ownerName).Nodup ↔ HeldApart table keys known := by
  constructor
  · intro hnodup k hk hstem l hl hne heq
    exact hne (List.inj_on_of_nodup_map hnodup hl hk (heq.trans (ownerName_of_no_stem hstem).symm))
  · intro hapart
    refine List.Nodup.map_on ?_ (hkeys.of_map.filter _)
    intro k hk l hl heq
    by_contra hne
    by_cases hks : idStem? k.fromColumn = none
    · exact hapart k hk hks l hl (Ne.symm hne) (heq ▸ ownerName_of_no_stem hks)
    · by_cases hls : idStem? l.fromColumn = none
      · exact hapart l hl hls k hk hne (heq.symm ▸ ownerName_of_no_stem hls)
      · obtain ⟨hkmem, hktable⟩ := List.mem_filter.1 hk
        obtain ⟨hlmem, hltable⟩ := List.mem_filter.1 hl
        simp only [Bool.and_eq_true, decide_eq_true_eq] at hktable hltable
        refine hne (List.inj_on_of_nodup_map hkeys hkmem hlmem (Prod.ext ?_ ?_))
        · exact hktable.1.trans hltable.1.symm
        · exact fromColumn_eq_of_ownerName hks hls heq

/-! ## Keys that refer to the table -/

theorem exists_owned_of_split {refs : List ForeignKey} {before after : List Association} {a : Association}
    (h : ownedAll table model indexes used refs = before ++ a :: after) :
    ∃ k, a = owned table model indexes ((before.map (·.name)).reverse ++ used) k := by
  induction before generalizing used refs with
  | nil =>
      cases refs with
      | nil => exact absurd h (by simp [ownedAll])
      | cons k rest =>
          rw [ownedAll, List.nil_append, List.cons.injEq] at h
          exact ⟨k, h.1.symm⟩
  | cons b before ih =>
      cases refs with
      | nil => exact absurd h (by simp [ownedAll])
      | cons k rest =>
          rw [ownedAll, List.cons_append, List.cons.injEq] at h
          obtain ⟨k', hk'⟩ := ih h.2
          refine ⟨k', ?_⟩
          rw [hk', h.1, List.map_cons, List.reverse_cons, List.append_assoc, List.singleton_append]

theorem referred_of_split {own mid after : List Association} {a : Association} {refs : List ForeignKey}
    (h : ownedAll table model indexes (own.map (·.name)) refs = mid ++ a :: after) :
    a.kind ≠ .belongsTo ∧ a.name =
      if plainName indexes a.provenance.foreignKey ∈ (own ++ mid).map (·.name) then
        longName indexes a.provenance.foreignKey
      else plainName indexes a.provenance.foreignKey := by
  obtain ⟨k, rfl⟩ := exists_owned_of_split h
  have htaken : ((mid.map (·.name)).reverse ++ own.map (·.name)).contains (plainName indexes k) = true ↔
      plainName indexes k ∈ (own ++ mid).map (·.name) := by
    rw [List.contains_iff_mem, List.mem_append, List.mem_reverse, List.map_append, List.mem_append, or_comm]
  refine ⟨?_, ?_⟩
  · intro hbelongs
    rcases kind_owned with hkind | hkind <;> exact absurd (hkind.symm.trans hbelongs) (by decide)
  · rw [name_owned]
    exact if_congr htaken rfl rfl

/-- An association and those suggested before it: it belongs to a key that the table holds and so do they, or it belongs to a
key that refers to the table and got its name in view of theirs. -/
theorem associations_split {before after : List Association} {a : Association}
    (h : associations table keys known indexes = before ++ a :: after) :
    (a.kind = .belongsTo ∧ ∃ first k last, heldKeys table keys known = first ++ k :: last ∧
      before.map (·.name) = first.map ownerName ∧ a.name = ownerName k) ∨
    (a.kind ≠ .belongsTo ∧ a.name =
      if plainName indexes a.provenance.foreignKey ∈ before.map (·.name) then longName indexes a.provenance.foreignKey
      else plainName indexes a.provenance.foreignKey) := by
  rw [associations_eq] at h
  rcases List.append_eq_append_iff.1 h with ⟨mid, rfl, hmid⟩ | ⟨mid, hown, hmid⟩
  · exact Or.inr (referred_of_split hmid)
  · cases mid with
    | nil =>
        rw [List.append_nil] at hown
        rw [← hown, ← List.append_nil (List.map _ (heldKeys table keys known))]
        exact Or.inr (referred_of_split hmid.symm)
    | cons b mid =>
        rw [List.cons_append, List.cons.injEq] at hmid
        obtain ⟨first, rest, hheld, rfl, hrest⟩ := List.map_eq_append_iff.1 hown
        obtain ⟨k, last, rfl, hk, -⟩ := List.map_eq_cons_iff.1 hrest
        rw [hmid.1, ← hk]
        refine Or.inl ⟨rfl, first, k, last, hheld, ?_, rfl⟩
        rw [List.map_map]
        rfl

/-- No association for a key that refers to the table finds its plain name and its longer name taken. -/
def ReferringApart (table : String) (keys : List ForeignKey) (known : List String) (indexes : List Index) : Prop :=
  ∀ before a after, associations table keys known indexes = before ++ a :: after → a.kind ≠ .belongsTo →
    plainName indexes a.provenance.foreignKey ∈ before.map (·.name) →
      longName indexes a.provenance.foreignKey ∉ before.map (·.name)

/-- Where no two foreign keys are on the same column, the associations of a model have different names if and only if no
key of its table is named after the table it refers to and like another key of the table, and no key that refers to the
table finds both its names taken. -/
theorem names_nodup_iff (table : String) {keys : List ForeignKey}
    (hkeys : (keys.map fun k => (k.fromTable, k.fromColumn)).Nodup) (known : List String) (indexes : List Index) :
    ((associations table keys known indexes).map (·.name)).Nodup ↔
      HeldApart table keys known ∧ ReferringApart table keys known indexes := by
  constructor
  · intro hnodup
    refine ⟨?_, ?_⟩
    · refine (nodup_ownerName_iff hkeys).1 ?_
      rw [associations_eq, List.map_append, List.map_map] at hnodup
      exact hnodup.of_append_left
    · intro before a after hsplit hkind hplain
      have hfree := (nodup_map_iff_split (fun x : Association => x.name) _).1 hnodup before a after hsplit
      rcases associations_split hsplit with ⟨hbelongs, -⟩ | ⟨-, hname⟩
      · exact absurd hbelongs hkind
      · rw [hname, if_pos hplain] at hfree
        exact hfree
  · rintro ⟨hheld, hreferring⟩
    refine (nodup_map_iff_split (fun x : Association => x.name) _).2 fun before a after hsplit => ?_
    rcases associations_split hsplit with ⟨-, first, k, last, hkeysplit, hbefore, hname⟩ | ⟨hkind, hname⟩
    · rw [hbefore, hname]
      exact (nodup_map_iff_split ownerName _).1 ((nodup_ownerName_iff hkeys).2 hheld) first k last hkeysplit
    · rw [hname]
      split
      · next htaken => exact hreferring before a after hsplit hkind htaken
      · next hfree => exact hfree

/-- The keys of posts that name the author, the editor and the reviewer by columns without a stem. -/
def stemlessKeys : List ForeignKey :=
  ["author", "editor", "reviewer"].map fun column => { fromTable := "posts", fromColumn := column, toTable := "users" }

/-- The posts that a user edits and those that it reviews both find `posts` taken, and both become `posts_as_user`. -/
theorem exists_names_not_nodup :
    ∃ table keys known indexes, (keys.map fun k : ForeignKey => (k.fromTable, k.fromColumn)).Nodup ∧
      ¬ ((associations table keys known indexes).map (·.name)).Nodup :=
  ⟨"users", stemlessKeys, ["users", "posts"], [], by decide, by decide⟩

/-- With an author and an editor the names differ, so that the keys are apart. Without stems the keys that refer to a user
are not, for a name is there twice. -/
theorem names_nodup_iff_postKeys :
    (HeldApart "users" postKeys ["users", "posts"] ∧ ReferringApart "users" postKeys ["users", "posts"] []) ∧
      ¬ ReferringApart "users" stemlessKeys ["users", "posts"] [] := by
  have hposts : (postKeys.map fun k => (k.fromTable, k.fromColumn)).Nodup := by decide
  have hstemless : (stemlessKeys.map fun k => (k.fromTable, k.fromColumn)).Nodup := by decide
  refine ⟨(names_nodup_iff "users" hposts ["users", "posts"] []).1 (by decide), fun hreferring => ?_⟩
  -- a user holds no key, so only the keys that refer to it can be in the way
  have hheld : HeldApart "users" stemlessKeys ["users", "posts"] := fun k hk => absurd hk (by decide +revert)
  exact absurd ((names_nodup_iff "users" hstemless ["users", "posts"] []).2 ⟨hheld, hreferring⟩) (by decide)

end CodeAtlas.Suggestion
