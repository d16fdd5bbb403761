import CodeAtlas.Suggestion.Association
import Mathlib.Data.List.Nodup
/-!
# The two sides of a foreign key

A foreign key between known tables gives one association to the model of each table. The referred side always names the
side that holds the key. The other way round this is so as long as no association that was suggested before has the plain
name of the referred side: the side that holds the key names the plain name, and does not follow when the referred side
gets a longer one (`inverseOf_eq_name_iff_free`).
-/

namespace CodeAtlas.Suggestion

open Schema

/-- The associations of the side that holds a key. -/
def holdingSide (k : ForeignKey) (suggested : List Association) : List Association :=
  suggested.filter fun a => a.kind = .belongsTo ∧ a.provenance.foreignKey = k

/-- The associations of the side that a key refers to. -/
def referredSide (k : ForeignKey) (suggested : List Association) : List Association :=
  suggested.filter fun a => (a.kind = .hasMany ∨ a.kind = .hasOne) ∧ a.provenance.foreignKey = k

variable {table model : String} {indexes : List Index} {used : List String} {k : ForeignKey}

theorem kind_owned : (owned table model indexes used k).kind = .hasMany ∨
    (owned table model indexes used k).kind = .hasOne := by
  unfold owned inverseSide
  split
  next h =>
    split at h <;> simp only [Prod.mk.injEq] at h
    · exact Or.inr h.1.symm
    · exact Or.inl h.1.symm

theorem name_owned : (owned table model indexes used k).name =
    if used.contains (inverseSide k indexes).2 then (inverseSide k indexes).2 ++ "_as_" ++ ownerName k
    else (inverseSide k indexes).2 := rfl

theorem exists_owned_of_mem {keys : List ForeignKey} {a : Association} (h : a ∈ ownedAll table model indexes used keys) :
    ∃ k ∈ keys, ∃ taken, a = owned table model indexes taken k := by
  induction keys generalizing used with
  | nil => exact absurd h List.not_mem_nil
  | cons k rest ih =>
      rcases List.mem_cons.1 h with heq | hrest
      · exact ⟨k, List.mem_cons_self, used, heq⟩
      · obtain ⟨k', hk', taken, heq⟩ := ih hrest
        exact ⟨k', List.mem_cons_of_mem _ hk', taken, heq⟩

theorem kind_of_mem_ownedAll {keys : List ForeignKey} {a : Association}
    (h : a ∈ ownedAll table model indexes used keys) : a.kind = .hasMany ∨ a.kind = .hasOne := by
  obtain ⟨k, -, taken, rfl⟩ := exists_owned_of_mem h
  exact kind_owned

theorem foreignKeys_ownedAll (keys : List ForeignKey) :
    (ownedAll table model indexes used keys).map (·.provenance.foreignKey) = keys := by
  induction keys generalizing used with
  | nil => rfl
  | cons k rest ih =>
      rw [ownedAll, List.map_cons, ih]
      rfl

/-- What is suggested first takes its names away from what is suggested after it. -/
theorem ownedAll_append (first second : List ForeignKey) :
    ownedAll table model indexes used (first ++ second) =
      ownedAll table model indexes used first ++
        ownedAll table model indexes (((ownedAll table model indexes used first).map (·.name)).reverse ++ used) second := by
  induction first generalizing used with
  | nil => rfl
  | cons k rest ih =>
      rw [List.cons_append, ownedAll, ownedAll, ih, List.cons_append, List.map_cons, List.reverse_cons, List.append_assoc]
      rfl

/-- Among associations of a kind with different keys, one is found by its key. -/
theorem filter_key_eq_singleton {P : AssociationKind → Prop} [DecidablePred P] {suggested : List Association}
    (hkind : ∀ a ∈ suggested, P a.kind) (hkeys : (suggested.map (·.provenance.foreignKey)).Nodup) {a : Association}
    (ha : a ∈ suggested) (hk : a.provenance.foreignKey = k) :
    suggested.filter (fun x => decide (P x.kind ∧ x.provenance.foreignKey = k)) = [a] := by
  induction suggested with
  | nil => exact absurd ha List.not_mem_nil
  | cons b rest ih =>
      rw [List.map_cons, List.nodup_cons] at hkeys
      rcases List.mem_cons.1 ha with heq | hrest
      · have hnone : rest.filter (fun x => decide (P x.kind ∧ x.provenance.foreignKey = k)) = [] := by
          rw [List.filter_eq_nil_iff]
          intro x hx hfound
          have hxk : x.provenance.foreignKey = b.provenance.foreignKey := by
            rw [(of_decide_eq_true hfound).2, ← heq, hk]
          exact hkeys.1 (hxk ▸ List.mem_map_of_mem hx)
        have hb : P b.kind ∧ b.provenance.foreignKey = k := ⟨hkind b List.mem_cons_self, heq ▸ hk⟩
        rw [List.filter_cons_of_pos (by simpa using hb), hnone, heq]
      · have hne : b.provenance.foreignKey ≠ k := by
          intro h
          exact hkeys.1 (h.trans hk.symm ▸ List.mem_map_of_mem hrest)
        rw [List.filter_cons_of_neg (by simp [hne])]
        exact ih (fun x hx => hkind x (List.mem_cons_of_mem _ hx)) hkeys.2 hrest

/-- The keys that a table holds and that it is referred to by, in the order of the suggestions. -/
def heldKeys (table : String) (keys : List ForeignKey) (known : List String) : List ForeignKey :=
  keys.filter fun k => k.fromTable = table && known.contains k.toTable

def referringKeys (table : String) (keys : List ForeignKey) (known : List String) : List ForeignKey :=
  keys.filter fun k => k.toTable = table && known.contains k.fromTable

section

variable {keys : List ForeignKey} {known : List String}

theorem associations_eq (table : String) (keys : List ForeignKey) (known : List String) (indexes : List Index) :
    associations table keys known indexes =
      (heldKeys table keys known).map (owning (Inflection.classify table) indexes) ++
        ownedAll table (Inflection.classify table) indexes
          (((heldKeys table keys known).map (owning (Inflection.classify table) indexes)).map (·.name))
          (referringKeys table keys known) := rfl

/-- What is suggested belongs to one side of a key or to the other. -/
theorem mem_associations {a : Association} (h : a ∈ associations table keys known indexes) :
    (∃ k ∈ keys, a = owning (Inflection.classify table) indexes k) ∨
      ∃ k ∈ keys, ∃ taken, a = owned table (Inflection.classify table) indexes taken k := by
  rw [associations_eq] at h
  rcases List.mem_append.1 h with h | h
  · obtain ⟨k, hk, rfl⟩ := List.mem_map.1 h
    exact Or.inl ⟨k, (List.mem_filter.1 hk).1, rfl⟩
  · obtain ⟨k, hk, taken, rfl⟩ := exists_owned_of_mem h
    exact Or.inr ⟨k, (List.mem_filter.1 hk).1, taken, rfl⟩

theorem holdingSide_associations (hkeys : keys.Nodup) (hk : k ∈ keys) (hto : k.toTable ∈ known) :
    holdingSide k (associations k.fromTable keys known indexes) =
      [owning (Inflection.classify k.fromTable) indexes k] := by
  have hmem : k ∈ heldKeys k.fromTable keys known := by
    simp [heldKeys, hk, hto]
  have hnone : holdingSide k (ownedAll k.fromTable (Inflection.classify k.fromTable) indexes
      (((heldKeys k.fromTable keys known).map (owning (Inflection.classify k.fromTable) indexes)).map (·.name))
      (referringKeys k.fromTable keys known)) = [] := by
    refine List.filter_eq_nil_iff.2 fun a ha => ?_
    rcases kind_of_mem_ownedAll ha with hkind | hkind <;> simp [hkind]
  have hkinds : ∀ a ∈ (heldKeys k.fromTable keys known).map (owning (Inflection.classify k.fromTable) indexes),
      a.kind = .belongsTo := by
    intro a ha
    obtain ⟨x, -, rfl⟩ := List.mem_map.1 ha
    rfl
  have hnodup : (((heldKeys k.fromTable keys known).map
      (owning (Inflection.classify k.fromTable) indexes)).map (·.provenance.foreignKey)).Nodup := by
    rw [List.map_map, show (fun a : Association => a.provenance.foreignKey) ∘
      owning (Inflection.classify k.fromTable) indexes = id from rfl, List.map_id]
    exact hkeys.filter _
  have hheld := filter_key_eq_singleton (P := (· = .belongsTo)) hkinds hnodup (List.mem_map_of_mem hmem) rfl
  rw [associations_eq, holdingSide, List.filter_append, ← holdingSide, ← holdingSide, hnone, List.append_nil]
  exact hheld

/-- The association of the referred side, with those suggested before it. -/
theorem exists_referredSide_associations (indexes : List Index) (hkeys : keys.Nodup) (hk : k ∈ keys) (hfrom : k.fromTable ∈ known) :
    ∃ before after used,
      associations k.toTable keys known indexes =
        before ++ owned k.toTable (Inflection.classify k.toTable) indexes used k :: after ∧
      (∀ name, name ∈ used ↔ ∃ a ∈ before, a.name = name) ∧
      referredSide k (associations k.toTable keys known indexes) =
        [owned k.toTable (Inflection.classify k.toTable) indexes used k] := by
  have hmem : k ∈ referringKeys k.toTable keys known := by
    simp [referringKeys, hk, hfrom]
  obtain ⟨first, last, hsplit⟩ := List.append_of_mem hmem
  -- what is suggested for the table of `k`: its own keys, the keys before `k`, then `k`
  let own := (heldKeys k.toTable keys known).map (owning (Inflection.classify k.toTable) indexes)
  let earlier := ownedAll k.toTable (Inflection.classify k.toTable) indexes (own.map (·.name)) first
  let used := (earlier.map (·.name)).reverse ++ own.map (·.name)
  let side := owned k.toTable (Inflection.classify k.toTable) indexes used k
  let later := ownedAll k.toTable (Inflection.classify k.toTable) indexes (side.name :: used) last
  have hreferred : ownedAll k.toTable (Inflection.classify k.toTable) indexes (own.map (·.name))
      (referringKeys k.toTable keys known) = earlier ++ side :: later := by
    rw [hsplit, ownedAll_append, ownedAll]
  have hall : associations k.toTable keys known indexes = (own ++ earlier) ++ side :: later := by
    rw [associations_eq, hreferred, List.append_assoc]
  refine ⟨own ++ earlier, later, used, hall, ?_, ?_⟩
  · intro name
    simp only [used, List.mem_append, List.mem_reverse, List.mem_map]
    constructor
    · rintro (⟨a, ha, rfl⟩ | ⟨a, ha, rfl⟩)
      · exact ⟨a, Or.inr ha, rfl⟩
      · exact ⟨a, Or.inl ha, rfl⟩
    · rintro ⟨a, ha | ha, rfl⟩
      · exact Or.inr ⟨a, ha, rfl⟩
      · exact Or.inl ⟨a, ha, rfl⟩
  · have hown : referredSide k own = [] := by
      refine List.filter_eq_nil_iff.2 fun a ha => ?_
      obtain ⟨x, -, rfl⟩ := List.mem_map.1 ha
      simp [owning]
    have hnodup : ((earlier ++ side :: later).map (·.provenance.foreignKey)).Nodup := by
      rw [← hreferred, foreignKeys_ownedAll]
      exact hkeys.filter _
    have hside : referredSide k (earlier ++ side :: later) = [side] := by
      refine filter_key_eq_singleton (P := fun kind => kind = .hasMany ∨ kind = .hasOne) ?_ hnodup ?_ rfl
      · intro a ha
        exact kind_of_mem_ownedAll (hreferred ▸ ha)
      · exact List.mem_append_right _ List.mem_cons_self
    rw [hall, List.append_assoc, referredSide, List.filter_append, ← referredSide, ← referredSide, hown, hside,
      List.nil_append]

end

theorem append_ne_self {s t : String} (ht : t ≠ "") : s ++ t ≠ s := by
  intro h
  have hlist := congrArg String.toList h
  rw [String.toList_append, List.append_right_eq_self] at hlist
  exact ht (String.toList_eq_nil_iff.1 hlist)

/-- A foreign key between known tables gives one association to each side. The referred side names the other one.
The side that holds the key names the referred side if and only if no association that was suggested before that side
has its plain name; otherwise the referred side has a longer name. -/
theorem inverseOf_eq_name_iff_free {keys : List ForeignKey} (hkeys : keys.Nodup) (known : List String)
    (indexes : List Index) {k : ForeignKey} (hk : k ∈ keys) (hfrom : k.fromTable ∈ known) (hto : k.toTable ∈ known) :
    ∃ holding referred before after,
      holdingSide k (associations k.fromTable keys known indexes) = [holding] ∧
      referredSide k (associations k.toTable keys known indexes) = [referred] ∧
      associations k.toTable keys known indexes = before ++ referred :: after ∧
      referred.inverseOf = holding.name ∧
      (holding.inverseOf = referred.name ↔ ∀ a ∈ before, a.name ≠ holding.inverseOf) ∧
      ((∃ a ∈ before, a.name = holding.inverseOf) →
        referred.name = holding.inverseOf ++ "_as_" ++ holding.name) := by
  obtain ⟨before, after, used, hall, hused, hreferred⟩ :=
    exists_referredSide_associations indexes hkeys hk hfrom
  refine ⟨_, _, before, after, holdingSide_associations hkeys hk hto, hreferred, hall, rfl, ?_, ?_⟩
  · have hfree : (∀ a ∈ before, a.name ≠ (inverseSide k indexes).2) ↔ (inverseSide k indexes).2 ∉ used := by
      rw [hused]
      simp
    change (inverseSide k indexes).2 = _ ↔ ∀ a ∈ before, a.name ≠ (inverseSide k indexes).2
    rw [hfree, name_owned]
    by_cases hmem : (inverseSide k indexes).2 ∈ used
    · rw [if_pos (by simpa using hmem), String.append_assoc]
      have hlonger : (inverseSide k indexes).2 ++ ("_as_" ++ ownerName k) ≠ (inverseSide k indexes).2 :=
        append_ne_self (by simp)
      exact ⟨fun h => absurd h.symm hlonger, fun h => absurd hmem h⟩
    · rw [if_neg (by simpa using hmem)]
      exact ⟨fun _ => hmem, fun _ => rfl⟩
  · intro htaken
    have hmem : (inverseSide k indexes).2 ∈ used := (hused _).2 htaken
    rw [name_owned, if_pos (by simpa using hmem)]
    rfl

/-- The editor of a post. -/
def editorKey : ForeignKey := { fromTable := "posts", fromColumn := "editor_id", toTable := "users" }

/-- Posts with an author and an editor. -/
def postKeys : List ForeignKey := [{ fromTable := "posts", fromColumn := "author_id", toTable := "users" }, editorKey]

/-- The posts that a user edits are `posts_as_editor`, but the editor of a post takes them for its `posts`, which are
those the user is the author of. -/
theorem exists_inverseOf_ne_name :
    ∃ keys known indexes, keys.Nodup ∧ ∃ k ∈ keys, k.fromTable ∈ known ∧ k.toTable ∈ known ∧
      ∃ holding referred,
        holdingSide k (associations k.fromTable keys known indexes) = [holding] ∧
        referredSide k (associations k.toTable keys known indexes) = [referred] ∧
        holding.inverseOf ≠ referred.name := by
  refine ⟨postKeys, ["users", "posts"], [], by decide, editorKey, by decide, by decide, by decide, _, _, rfl, rfl, ?_⟩
  decide

theorem inverseOf_eq_name_iff_free_postKeys :
    ∃ holding referred before after,
      holdingSide editorKey (associations "posts" postKeys ["users", "posts"] []) = [holding] ∧
      referredSide editorKey (associations "users" postKeys ["users", "posts"] []) = [referred] ∧
      associations "users" postKeys ["users", "posts"] [] = before ++ referred :: after ∧
      referred.inverseOf = holding.name ∧
      (holding.inverseOf = referred.name ↔ ∀ a ∈ before, a.name ≠ holding.inverseOf) ∧
      ((∃ a ∈ before, a.name = holding.inverseOf) →
        referred.name = holding.inverseOf ++ "_as_" ++ holding.name) :=
  inverseOf_eq_name_iff_free (by decide : postKeys.Nodup) ["users", "posts"] [] (by decide : editorKey ∈ postKeys)
    (by decide) (by decide)

end CodeAtlas.Suggestion
