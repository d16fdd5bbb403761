import CodeAtlas.Proofs.Text.Parts
import CodeAtlas.Tree.Basic
/-!
# Paths and their components

Below its root a path is made of names and of steps up, and it can be read back from them (`components_ofComponents`). A path
seen from a directory is such a list, so its form is that of a kept path unless it steps up
(`normalize_ofComponents`). Nothing but a step up in the path itself puts one there (`parent_mem_join`).
-/

namespace CodeAtlas

theorem Text.not_mem_of_mem_splitOn {sep : Char} {cs part : List Char} (h : part ∈ splitOn sep cs) : sep ∉ part := by
  induction cs generalizing part with
  | nil => simp [List.mem_singleton.1 h]
  | cons c cs ih =>
      rw [splitOn] at h
      split at h
      · rcases List.mem_cons.1 h with rfl | h
        · exact List.not_mem_nil
        · exact ih h
      · next hc =>
          split at h
          · next hnone => exact absurd hnone (splitOn_ne_nil sep cs)
          · next first rest hsplit =>
              rw [hsplit] at ih
              rcases List.mem_cons.1 h with rfl | h
              · rw [List.mem_cons, not_or]
                exact ⟨Ne.symm hc, ih List.mem_cons_self⟩
              · exact ih (List.mem_cons_of_mem _ h)

namespace Component

/-- What a file or a directory can be called. -/
structure IsName (name : String) : Prop where
  ne_empty : name ≠ ""
  ne_dot : name ≠ "."
  ne_dots : name ≠ ".."
  no_slash : '/' ∉ name.toList

instance (name : String) : Decidable (IsName name) :=
  decidable_of_iff (name ≠ "" ∧ name ≠ "." ∧ name ≠ ".." ∧ '/' ∉ name.toList)
    ⟨fun ⟨h, h1, h2, h3⟩ => ⟨h, h1, h2, h3⟩, fun h => ⟨h.ne_empty, h.ne_dot, h.ne_dots, h.no_slash⟩⟩

/-- A name or a step up. -/
inductive Inner : Component → Prop where
  | parent : Inner .parent
  | normal {name : String} (h : IsName name) : Inner (.normal name)

theorem Inner.no_slash {c : Component} (h : c.Inner) : '/' ∉ c.text.toList := by
  cases h with
  | parent => decide
  | normal h => exact h.no_slash

theorem Inner.text_ne_empty {c : Component} (h : c.Inner) : c.text.toList ≠ [] := by
  cases h with
  | parent => decide
  | normal h => exact fun hempty => h.ne_empty (String.toList_inj.1 hempty)

theorem Inner.text_ne_dot {c : Component} (h : c.Inner) : c.text.toList ≠ ['.'] := by
  cases h with
  | parent => decide
  | normal h => exact fun hdot => h.ne_dot (String.toList_inj.1 hdot)

theorem ofSegment?_text {c : Component} (h : c.Inner) : ofSegment? c.text.toList = some c := by
  rw [ofSegment?, if_neg (by simp [h.text_ne_empty, h.text_ne_dot])]
  cases h with
  | parent => rfl
  | normal h =>
      next name =>
      have hdots : name.toList ≠ ['.', '.'] := fun hdots => h.ne_dots (String.toList_inj.1 hdots)
      rw [text, if_neg hdots, String.ofList_toList]

theorem inner_of_ofSegment? {segment : List Char} {c : Component} (hslash : '/' ∉ segment) (h : ofSegment? segment = some c) :
    c.Inner := by
  unfold ofSegment? at h
  split at h
  · cases h
  · next hdot =>
      simp only [Bool.or_eq_true, decide_eq_true_eq, not_or] at hdot
      split at h
      · cases h
        exact .parent
      · next hdots =>
          cases h
          refine .normal ⟨fun heq => hdot.1 ?_, fun heq => hdot.2 ?_, fun heq => hdots ?_, by simpa using hslash⟩
          all_goals
            rw [← String.toList_ofList (l := segment), heq]
            rfl

end Component

namespace Path

open Component Text

/-- Components as a path with single slashes. -/
def ofComponents (cs : List Component) : String := "/".intercalate (cs.map Component.text)

/-- The components of a path behind what it starts with. -/
def inner (path : String) : List Component := (splitOn '/' path.toList).filterMap ofSegment?

theorem mem_inner {path : String} {c : Component} (h : c ∈ inner path) : c.Inner := by
  obtain ⟨segment, hsegment, hc⟩ := List.mem_filterMap.1 h
  exact inner_of_ofSegment? (not_mem_of_mem_splitOn hsegment) hc

theorem toList_intercalate (parts : List String) :
    ("/".intercalate parts).toList = joinWith ['/'] (parts.map String.toList) :=
  String.toList_intercalate

section

variable {cs : List Component}

theorem splitOn_ofComponents (hne : cs ≠ []) (h : ∀ c ∈ cs, c.Inner) :
    splitOn '/' (ofComponents cs).toList = cs.map fun c => c.text.toList := by
  cases cs with
  | nil => exact absurd rfl hne
  | cons c rest =>
      rw [ofComponents, toList_intercalate, List.map_map, List.map_cons, splitOn_joinWith]
      · rfl
      · intro part hpart
        obtain ⟨d, hd, rfl⟩ := List.mem_map.1 (show part ∈ (c :: rest).map fun c => c.text.toList from hpart)
        exact (h d hd).no_slash

theorem inner_ofComponents (hne : cs ≠ []) (h : ∀ c ∈ cs, c.Inner) : inner (ofComponents cs) = cs := by
  rw [inner, splitOn_ofComponents hne h, List.filterMap_map]
  have hsome : ∀ c ∈ cs, (ofSegment? ∘ fun c : Component => c.text.toList) c = some c := fun c hc => ofSegment?_text (h c hc)
  rw [List.filterMap_congr hsome, List.filterMap_some]

theorem isAbsolute_ofComponents (h : ∀ c ∈ cs, c.Inner) : isAbsolute (ofComponents cs) = false := by
  cases cs with
  | nil => rfl
  | cons c rest =>
      have hhead : (ofComponents (c :: rest)).toList.head? = c.text.toList.head? := by
        have hc := (h c List.mem_cons_self).text_ne_empty
        rw [ofComponents, toList_intercalate]
        cases rest with
        | nil => simp [joinWith]
        | cons next rest => simp [joinWith, List.intercalate, List.head?_append, Option.or_of_isSome, hc]
      rw [isAbsolute, hhead, decide_eq_false_iff_not]
      exact fun hslash => (h c List.mem_cons_self).no_slash (List.mem_of_mem_head? hslash)

/-- A path is read back from its components. -/
theorem components_ofComponents (hne : cs ≠ []) (h : ∀ c ∈ cs, c.Inner) : components (ofComponents cs) = cs := by
  have hstart : (ofComponents cs).toList.head? ≠ some '/' := by
    simpa [isAbsolute] using isAbsolute_ofComponents h
  have hdot : (splitOn '/' (ofComponents cs).toList).head? ≠ some ['.'] := by
    rw [splitOn_ofComponents hne h, List.head?_map]
    intro heq
    obtain ⟨c, hc, hcdot⟩ := Option.map_eq_some_iff.1 heq
    exact (h c (List.mem_of_mem_head? hc)).text_ne_dot hcdot
  rw [components]
  rw [if_neg hstart, if_neg hdot]
  exact inner_ofComponents hne h

theorem innerNames_eq (path : String) (h : ∀ c ∈ cs, c.Inner) :
    innerNames path cs =
      if .parent ∈ cs then .error (.invalidQuery (.outsideRoot path)) else .ok (cs.map Component.text) := by
  induction cs with
  | nil => rfl
  | cons c rest ih =>
      obtain ⟨hc, hrest⟩ := List.forall_mem_cons.1 h
      cases hc with
      | parent => simp [innerNames]
      | normal hname =>
          rw [innerNames, ih hrest]
          by_cases hup : Component.parent ∈ rest <;> simp [hup, Except.map, Component.text]

/-- A path of names is kept as it is, and one that steps up is refused. -/
theorem normalize_ofComponents (hne : cs ≠ []) (h : ∀ c ∈ cs, c.Inner) :
    normalize (ofComponents cs) =
      if .parent ∈ cs then .error (.invalidQuery (.outsideRoot (ofComponents cs))) else .ok (ofComponents cs) := by
  rw [normalize, components_ofComponents hne h, innerNames_eq _ h]
  by_cases hup : Component.parent ∈ cs
  · simp only [if_pos hup]
  · simp only [if_neg hup]
    cases cs with
    | nil => exact absurd rfl hne
    | cons c rest => rfl

end

/-! ## Paths seen from a directory -/

section

variable {dir path : String}

theorem components_of_isAbsolute (h : isAbsolute path = true) : components path = .root :: inner path := by
  rw [components]
  rw [if_pos (of_decide_eq_true h)]
  rfl

theorem parent_mem_components : Component.parent ∈ components path ↔ Component.parent ∈ inner path := by
  rw [components]
  split
  · simp [inner]
  · split <;> simp [inner]

theorem relativeComponents?_eq_some_iff {dir path rest : List Component} :
    relativeComponents? dir path = some rest ↔ path = dir ++ rest := by
  induction dir generalizing path with
  | nil => simp [relativeComponents?, eq_comm]
  | cons d dir ih =>
      cases path with
      | nil => simp [relativeComponents?]
      | cons c path =>
          rw [relativeComponents?]
          split
          · next h => rw [ih, h, List.cons_append, List.cons.injEq, eq_self_iff_true, true_and]
          · next h => simp [Ne.symm h]

/-- What a path inside an absolute directory is seen from there. -/
theorem relative?_eq_some {q : String} (hdir : isAbsolute dir = true) (hpath : isAbsolute path = true)
    (h : relative? dir path = some q) :
    ∃ cs, cs ≠ [] ∧ (∀ c ∈ cs, c.Inner) ∧ inner path = inner dir ++ cs ∧ q = ofComponents cs := by
  unfold relative? at h
  split at h
  · next c cs hrest =>
      rw [relativeComponents?_eq_some_iff, components_of_isAbsolute hdir, components_of_isAbsolute hpath, List.cons_append,
        List.cons.injEq] at hrest
      refine ⟨c :: cs, List.cons_ne_nil c cs, ?_, hrest.2, (Option.some.inj h).symm⟩
      intro d hd
      exact mem_inner (hrest.2 ▸ List.mem_append_right _ hd)
  · cases h

theorem isAbsolute_join (hdir : isAbsolute dir = true) (path : String) : isAbsolute (join dir path) = true := by
  have hhead : dir.toList.head? = some '/' := of_decide_eq_true hdir
  rw [join]
  split
  · next h =>
      rcases Bool.or_eq_true_iff.1 h with h | h
      · exact h
      · rw [String.isEmpty_iff.1 h] at hhead
        cases hhead
  · split <;> simp [isAbsolute, List.head?_append, hhead]

theorem inner_join (hdir : isAbsolute dir = true) (hpath : isAbsolute path = false) :
    inner (join dir path) = inner dir ++ inner path := by
  have hnonempty : dir.isEmpty = false := by
    rw [← Bool.not_eq_true, String.isEmpty_iff]
    rintro rfl
    cases hdir
  rw [join, if_neg (by simp [hpath, hnonempty])]
  split
  · next hlast =>
      obtain ⟨front, hfront⟩ := List.getLast?_eq_some_iff.1 hlast
      have hjoin : (dir ++ path).toList = front ++ '/' :: path.toList := by simp [hfront]
      rw [inner, hjoin, splitOn_append, List.filterMap_append, inner, hfront, splitOn_append, List.filterMap_append]
      simp [splitOn, ofSegment?, inner]
  · have hjoin : (dir ++ "/" ++ path).toList = dir.toList ++ '/' :: path.toList := by simp
    rw [inner, hjoin, splitOn_append, List.filterMap_append]
    rfl

/-- A step up in a path that is seen from a directory was there before. -/
theorem parent_mem_join {cs : List Component} (hdir : isAbsolute dir = true) (h : inner (join dir path) = inner dir ++ cs)
    (hup : Component.parent ∈ cs) : Component.parent ∈ components path := by
  rw [parent_mem_components]
  cases hpath : isAbsolute path with
  | true =>
      rw [join, if_pos (by simp [hpath])] at h
      exact h ▸ List.mem_append_right _ hup
  | false =>
      rw [inner_join hdir hpath, List.append_cancel_left_eq] at h
      exact h ▸ hup

end

end Path

/-! ## Where paths lead -/

namespace Tree

theorem follow_eq_some {t : Tree} {cs : List Component} (hinner : ∀ c ∈ cs, c.Inner) (hup : Component.parent ∉ cs)
    {at_ names : List String} (h : t.follow at_ cs = some names) : names = at_ ++ cs.map Component.text := by
  induction cs generalizing at_ with
  | nil => simpa [follow, eq_comm] using h
  | cons c rest ih =>
      obtain ⟨hc, hrest⟩ := List.forall_mem_cons.1 hinner
      rw [List.mem_cons, not_or] at hup
      cases hc with
      | parent => exact absurd rfl hup.1
      | normal hname =>
          rw [follow] at h
          split at h
          · rw [ih hrest hup.2 h, List.append_assoc]
            rfl
          · cases h

/-- A path of names leads nowhere else than down these names. -/
theorem locate?_ofComponents {t : Tree} {cs : List Component} (hne : cs ≠ []) (hinner : ∀ c ∈ cs, c.Inner)
    (hup : Component.parent ∉ cs) {names : List String} (h : t.locate? (Path.ofComponents cs) = some names) :
    names = cs.map Component.text := by
  rw [locate?] at h
  rw [if_neg (by simp [Path.isAbsolute_ofComponents hinner]), Path.components_ofComponents hne hinner, Option.bind_some] at h
  exact follow_eq_some hinner hup (Option.filter_eq_some_iff.1 h).1

end Tree

end CodeAtlas
