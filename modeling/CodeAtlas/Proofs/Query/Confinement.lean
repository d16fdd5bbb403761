import CodeAtlas.Proofs.Inflection.RoundTrip
import CodeAtlas.Proofs.Table
import CodeAtlas.Proofs.Tree.Path
import CodeAtlas.Query.Files
import CodeAtlas.Query.Snippet
/-!
# Paths in queries stay inside

The path of a query is brought into the form in which paths are kept, or refused. It is refused if it is absolute, steps
up or names nothing (`normalize_eq`); the form is a row of names with single slashes between them (`Confined`), is its own
form, and lies below whatever directory it is seen from. The paths that a query makes of it by conventions are of that
form as well (`confined_testCandidates`). So nothing that lies elsewhere has an influence on an answer
(`normalize_confines`).
-/

namespace CodeAtlas

open Text Component

/-! ## Rows of names -/

namespace Path

/-- Names with single slashes between them. -/
def NamesBetween (cs : List Char) : Prop := ∀ segment ∈ splitOn '/' cs, IsName (String.ofList segment)

/-- A path that leads down from where it is seen, without detours. -/
def Confined (path : String) : Prop := NamesBetween path.toList

instance (cs : List Char) : Decidable (NamesBetween cs) :=
  inferInstanceAs (Decidable (∀ segment ∈ splitOn '/' cs, IsName (String.ofList segment)))

instance (path : String) : Decidable (Confined path) := inferInstanceAs (Decidable (NamesBetween path.toList))

section

variable {u v : List Char}

theorem namesBetween_append_slash : NamesBetween (u ++ '/' :: v) ↔ NamesBetween u ∧ NamesBetween v := by
  unfold NamesBetween
  rw [splitOn_append, List.forall_mem_append]

theorem namesBetween_of_not_mem (h : '/' ∉ u) : NamesBetween u ↔ IsName (String.ofList u) := by
  unfold NamesBetween
  rw [splitOn_of_not_mem h, List.forall_mem_singleton]

theorem isName_of_length (hslash : '/' ∉ u) (hlength : 2 < u.length) : IsName (String.ofList u) := by
  refine ⟨?_, ?_, ?_, by simpa using hslash⟩
  all_goals
    intro heq
    rw [← String.toList_ofList (l := u), heq] at hlength
    exact absurd hlength (by decide)

/-- What is put behind a name may be anything that is longer than the dots. -/
theorem namesBetween_append (hu : '/' ∉ u) (hv : '/' ∉ v) (hlength : 2 < v.length) : NamesBetween (u ++ v) := by
  have hslash : '/' ∉ u ++ v := by simp [hu, hv]
  refine (namesBetween_of_not_mem hslash).2 (isName_of_length hslash ?_)
  rw [List.length_append]
  omega

/-- A text without a slash, or what stands before and after its last slash. -/
theorem slash_cases (cs : List Char) : '/' ∉ cs ∨ ∃ dir name, cs = dir ++ '/' :: name ∧ '/' ∉ name := by
  by_cases hslash : '/' ∈ cs
  · obtain ⟨name, dir, hsplit, hname⟩ := List.eq_append_cons_of_mem (List.mem_reverse.2 hslash)
    refine Or.inr ⟨dir.reverse, name.reverse, ?_, by simpa using hname⟩
    rw [← List.reverse_reverse cs, hsplit]
    simp
  · exact Or.inl hslash

/-- The ending of the last name may be replaced by a longer one. -/
theorem NamesBetween.replace_ending {ending other : List Char} (h : NamesBetween (u ++ ending))
    (hother : '/' ∉ other) (hlength : 2 < other.length) : NamesBetween (u ++ other) := by
  rcases slash_cases u with hu | ⟨dir, name, rfl, hname⟩
  · exact namesBetween_append hu hother hlength
  · rw [List.append_assoc, List.cons_append, namesBetween_append_slash] at h ⊢
    exact ⟨h.1, namesBetween_append hname hother hlength⟩

end

/-! ## The kept form -/

section

variable {path q : String}

theorem innerNames_components (path : String) :
    innerNames path (components path) =
      if isAbsolute path = true ∨ .parent ∈ inner path then .error (.invalidQuery (.outsideRoot path))
      else .ok ((inner path).map Component.text) := by
  have hinner := innerNames_eq path fun c (hc : c ∈ inner path) => mem_inner hc
  by_cases habsolute : isAbsolute path = true
  · rw [if_pos (Or.inl habsolute), components_of_isAbsolute habsolute]
    rfl
  · rw [if_congr (or_iff_right habsolute) rfl rfl, ← hinner, components, if_neg (mt decide_eq_true habsolute)]
    split
    · rfl
    · rfl

/-- What becomes of the path of a query. -/
theorem normalize_eq (path : String) :
    normalize path =
      if isAbsolute path = true ∨ .parent ∈ inner path then .error (.invalidQuery (.outsideRoot path))
      else if inner path = [] then .error (.invalidQuery .emptyPath)
      else .ok (ofComponents (inner path)) := by
  rw [normalize, innerNames_components]
  by_cases houtside : isAbsolute path = true ∨ .parent ∈ inner path
  · simp only [if_pos houtside]
  · simp only [if_neg houtside]
    cases hcases : inner path with
    | nil => rfl
    | cons c rest => rfl

theorem normalize_eq_ok_iff :
    normalize path = .ok q ↔
      isAbsolute path = false ∧ .parent ∉ inner path ∧ inner path ≠ [] ∧ q = ofComponents (inner path) := by
  rw [normalize_eq, ← Bool.not_eq_true]
  split
  · next houtside =>
      refine iff_of_false (by simp) ?_
      rintro ⟨hrelative, hup, -⟩
      exact houtside.elim hrelative hup
  · next hinside =>
      rw [not_or] at hinside
      split
      · next hempty => exact iff_of_false (by simp) fun h => h.2.2.1 hempty
      · next hne =>
          rw [Except.ok.injEq]
          exact ⟨fun h => ⟨hinside.1, hinside.2, hne, h.symm⟩, fun h => h.2.2.2.symm⟩

theorem inner_ne_nil_iff (hup : Component.parent ∉ inner path) :
    inner path ≠ [] ↔ ∃ name, .normal name ∈ inner path := by
  constructor
  · intro hne
    obtain ⟨c, rest, hcons⟩ := List.exists_cons_of_ne_nil hne
    have hc : c ∈ inner path := hcons ▸ List.mem_cons_self
    cases mem_inner hc with
    | parent => exact absurd hc hup
    | normal => exact ⟨_, hc⟩
  · rintro ⟨name, hname⟩
    exact List.ne_nil_of_mem hname

theorem normal_mem_components {name : String} : .normal name ∈ components path ↔ .normal name ∈ inner path := by
  rw [components]
  split
  · simp [inner]
  · split <;> simp [inner]

/-- A path is kept in some form just if it is not absolute, does not step up and names something. -/
theorem exists_normalize_iff (path : String) :
    (∃ q, normalize path = .ok q) ↔
      isAbsolute path = false ∧ .parent ∉ components path ∧ ∃ name, .normal name ∈ components path := by
  simp only [normalize_eq_ok_iff, normal_mem_components, parent_mem_components, exists_and_left, exists_eq, and_true]
  exact and_congr_right fun _ => and_congr_right inner_ne_nil_iff

theorem confined_ofComponents {cs : List Component} (hne : cs ≠ []) (hinner : ∀ c ∈ cs, c.Inner)
    (hup : Component.parent ∉ cs) : Confined (ofComponents cs) := by
  intro segment hsegment
  rw [splitOn_ofComponents hne hinner] at hsegment
  obtain ⟨c, hc, rfl⟩ := List.mem_map.1 hsegment
  cases hinner c hc with
  | parent => exact absurd hc hup
  | normal hname => rwa [String.ofList_toList]

theorem Confined.ne_empty (h : Confined path) : path ≠ "" := by
  rintro rfl
  exact (h [] List.mem_cons_self).ne_empty rfl

theorem Confined.isAbsolute_eq (h : Confined path) : isAbsolute path = false := by
  by_contra habsolute
  obtain ⟨rest, hrest⟩ := List.head?_eq_some_iff.1 (of_decide_eq_true (Bool.not_eq_false _ ▸ habsolute))
  rw [Confined, hrest] at h
  exact (h [] (by rw [splitOn, if_pos rfl]; exact List.mem_cons_self)).ne_empty rfl

/-- Where a path is normalized, it is brought into a form that is its own. -/
theorem normalize_self (h : normalize path = .ok q) : Confined q ∧ normalize q = .ok q := by
  obtain ⟨-, hup, hne, rfl⟩ := normalize_eq_ok_iff.1 h
  have hinner : ∀ c ∈ inner path, c.Inner := fun c hc => mem_inner hc
  refine ⟨confined_ofComponents hne hinner hup, ?_⟩
  rw [normalize_ofComponents hne hinner, if_neg hup]

/-- The kept form has the components of the path, but for a dot that it starts with. -/
theorem components_normalize (h : normalize path = .ok q) : components q = (components path).filter (· ≠ .current) := by
  obtain ⟨hrelative, -, hne, rfl⟩ := normalize_eq_ok_iff.1 h
  have hinner : ∀ c ∈ inner path, c.Inner := fun c hc => mem_inner hc
  have hkept : (inner path).filter (· ≠ .current) = inner path := by
    refine List.filter_eq_self.2 fun c hc => ?_
    cases hinner c hc with
    | parent => rfl
    | normal => rfl
  have hstart : path.toList.head? ≠ some '/' := by simpa [isAbsolute] using hrelative
  rw [components_ofComponents hne hinner, components, if_neg hstart]
  split
  · exact hkept.symm
  · exact hkept.symm

theorem Confined.components_eq (h : Confined q) : components q = inner q := by
  have hstart : q.toList.head? ≠ some '/' := by simpa [isAbsolute] using h.isAbsolute_eq
  rw [components, if_neg hstart, if_neg]
  · rfl
  · intro hdot
    exact (h ['.'] (List.mem_of_mem_head? hdot)).ne_dot rfl

/-- What follows a slash adds its names and steps up, unless the slash is the first character. -/
theorem components_append_slash {front : List Char} (hfront : front ≠ []) (rest : List Char) :
    components (String.ofList (front ++ '/' :: rest)) =
      components (String.ofList front) ++ (splitOn '/' rest).filterMap ofSegment? := by
  have hstart : (front ++ '/' :: rest).head? = front.head? := List.head?_append_of_ne_nil _ hfront
  have hfirst : (splitOn '/' front ++ splitOn '/' rest).head? = (splitOn '/' front).head? :=
    List.head?_append_of_ne_nil _ (splitOn_ne_nil _ _)
  simp only [components, String.toList_ofList, hstart, splitOn_append, hfirst, List.filterMap_append]
  split
  · rfl
  · split
    · rfl
    · rfl

theorem components_join (dir : String) (h : Confined q) : components (join dir q) = components dir ++ inner q := by
  by_cases hdir : dir = ""
  · rw [join, if_pos (by simp [hdir]), h.components_eq, hdir]
    rfl
  · rw [join, if_neg (by simp [h.isAbsolute_eq, hdir])]
    split
    · next hlast =>
        obtain ⟨front, hfront⟩ := List.getLast?_eq_some_iff.1 hlast
        have hsplit : dir = String.ofList (front ++ '/' :: []) := by rw [← hfront, String.ofList_toList]
        have hpath : dir ++ q = String.ofList (front ++ '/' :: q.toList) := String.toList_injective (by simp [hfront])
        by_cases hroot : front = []
        · simp [hsplit, hroot, components, splitOn, inner, ofSegment?]
        · rw [hpath, hsplit, components_append_slash hroot, components_append_slash hroot, List.append_assoc]
          rfl
    · have hpath : dir ++ "/" ++ q = String.ofList (dir.toList ++ '/' :: q.toList) := String.toList_injective (by simp)
      rw [hpath, components_append_slash (mt String.toList_eq_nil_iff.1 hdir), String.ofList_toList]
      rfl

/-- A kept path lies below any directory that it is seen from. -/
theorem relative?_join (dir : String) (h : normalize path = .ok q) : relative? dir (join dir q) = some q := by
  obtain ⟨hconfined, hself⟩ := normalize_self h
  obtain ⟨-, -, hne, hq⟩ := normalize_eq_ok_iff.1 hself
  rw [relative?, components_join dir hconfined, relativeComponents?_eq_some_iff.2 rfl]
  obtain ⟨c, rest, hcons⟩ := List.exists_cons_of_ne_nil hne
  rw [hcons] at hq ⊢
  exact congrArg some hq.symm

end

end Path

/-! ## Paths of tests -/

namespace Inflection

theorem slash_not_mem_pluralize {word : String} (h : '/' ∉ word.toList) : '/' ∉ (pluralize word).toList := by
  have hsibilants : ∀ ending ∈ sibilants, '/' ∉ ending := by decide
  rw [pluralize, String.toList_ofList]
  have hplural := pluralOf_pluralChars word.toList
  generalize word.toList = cs, pluralChars word.toList = plural at h hplural
  cases hplural with
  | empty => exact h
  | consonant stem => simp_all
  | sibilant hending stem => simp_all
  | plain => simp_all

end Inflection

namespace Query

open CodeAtlas.Path

theorem mem_distinct {names : List String} {name : String} (h : name ∈ distinct names) : name ∈ names :=
  (mem_or_mem_of_mem_foldl h).resolve_left List.not_mem_nil

theorem slash_not_mem_lastSegment (cs : List Char) : '/' ∉ lastSegment cs := by
  rw [lastSegment]
  cases hlast : (splitOn '/' cs).getLast? with
  | none => exact absurd (List.getLast?_eq_none_iff.1 hlast) (splitOn_ne_nil _ _)
  | some segment => exact not_mem_of_mem_splitOn (List.mem_of_getLast? hlast)

/-- A row of names that ends in a slash. -/
def IsBeginning (beginning : String) : Prop :=
  beginning.toList.getLast? = some '/' ∧ NamesBetween beginning.toList.dropLast

instance (beginning : String) : Decidable (IsBeginning beginning) :=
  inferInstanceAs (Decidable (beginning.toList.getLast? = some '/' ∧ NamesBetween beginning.toList.dropLast))

section

variable {beginning ending : String} {middle : List Char}

theorem confined_pathWith (hbeginning : IsBeginning beginning) (h : NamesBetween (middle ++ ending.toList)) :
    Confined (pathWith beginning middle ending) := by
  obtain ⟨hlast, hnames⟩ := hbeginning
  obtain ⟨dir, hdir⟩ := List.getLast?_eq_some_iff.1 hlast
  rw [hdir, List.dropLast_concat] at hnames
  have hpath : (pathWith beginning middle ending).toList = dir ++ '/' :: (middle ++ ending.toList) := by
    simp [pathWith, hdir]
  rw [Confined, hpath, namesBetween_append_slash]
  exact ⟨hnames, h⟩

/-- A file in a directory of tests. -/
theorem confined_pathWith_name (hbeginning : IsBeginning beginning) (hmiddle : '/' ∉ middle)
    (hending : '/' ∉ ending.toList ∧ 2 < ending.toList.length) : Confined (pathWith beginning middle ending) :=
  confined_pathWith hbeginning (namesBetween_append hmiddle hending.1 hending.2)

end

theorem confined_conventionalTests (category : Category) (stem : List Char) :
    ∀ test ∈ conventionalTests category stem, Confined test := by
  have hname := slash_not_mem_lastSegment stem
  intro test htest
  unfold conventionalTests at htest
  dsimp only at htest
  split at htest
  · have hplural : '/' ∉ (Inflection.pluralize (String.ofList (lastSegment stem))).toList :=
      Inflection.slash_not_mem_pluralize (by rwa [String.toList_ofList])
    rcases List.mem_pair.1 htest with rfl | rfl
    · exact confined_pathWith_name (by decide) hplural (by decide)
    · exact confined_pathWith_name (by decide) hplural (by decide)
  · split at htest
    · next resource hresource =>
        have hslash : '/' ∉ resource := by
          rw [before?_eq_some_iff.1 hresource] at hname
          exact fun h => hname (List.mem_append_left _ h)
        rcases List.mem_pair.1 htest with rfl | rfl
        · exact confined_pathWith_name (by decide) hslash (by decide)
        · exact confined_pathWith_name (by decide) hslash (by decide)
    · exact absurd htest List.not_mem_nil
  · exact absurd htest List.not_mem_nil

theorem confined_testCandidates {path : String} (h : Confined path) : ∀ test ∈ testCandidates path, Confined test := by
  intro test htest
  unfold testCandidates at htest
  dsimp only at htest
  split at htest
  · exact absurd htest List.not_mem_nil
  · next stem hstem =>
      rw [Confined, before?_eq_some_iff.1 hstem] at h
      split at htest
      · exact absurd htest List.not_mem_nil
      · -- What is left of a stem behind `app/` is a row of names as well.
        have hinner : NamesBetween (((after? "app/".toList stem).getD stem) ++ ".rb".toList) := by
          cases hafter : after? "app/".toList stem with
          | none => exact h
          | some rest =>
              rw [after?_eq_some_iff.1 hafter] at h
              exact (namesBetween_append_slash.1 (show NamesBetween ("app".toList ++ '/' :: (rest ++ ".rb".toList)) from h)).2
        rcases List.mem_append.1 (mem_distinct htest) with hpair | hconventional
        · rcases List.mem_pair.1 hpair with rfl | rfl
          · exact confined_pathWith (by decide) (hinner.replace_ending (by decide) (by decide))
          · exact confined_pathWith (by decide) (hinner.replace_ending (by decide) (by decide))
        · exact confined_conventionalTests _ _ test hconventional

end Query

/-! ## What a query reads -/

section

open CodeAtlas.Path

variable {t t' : Tree}

theorem Tree.follow_congr (h : t.directories = t'.directories) (names : List String) (cs : List Component) :
    t.follow names cs = t'.follow names cs := by
  have hdirectory : ∀ names, t.isDirectory names = t'.isDirectory names := fun names => by
    rw [isDirectory, isDirectory, h]
  induction cs generalizing names with
  | nil => rfl
  | cons c rest ih => cases c <;> simp only [follow, hdirectory, ih]

/-- A kept path leads to the same file wherever the root lies, and whatever lies beside it. -/
theorem Tree.file?_congr {path : String} (hpath : Confined path) (hfiles : t.files = t'.files)
    (hdirectories : t.directories = t'.directories) : t.file? path = t'.file? path := by
  have hfollow : t.follow [] = t'.follow [] := funext (follow_congr hdirectories [])
  have hlocate : t.locate? path = t'.locate? path := by
    simp only [locate?, hpath.isAbsolute_eq, Bool.false_eq_true, if_false, hfollow, isDirectory, hdirectories]
  rw [file?, file?, hlocate]
  exact congrArg _ (funext fun names => by rw [lookup, lookup, hfiles])

/-- What a kept path leads to is called by its names from the root down. -/
theorem Tree.lookup_namesOf {path q : String} {f : SourceFile} (h : normalize path = .ok q) (hf : t.file? q = some f) :
    t.lookup (Tree.namesOf q) = some f := by
  obtain ⟨-, hup, hne, rfl⟩ := normalize_eq_ok_iff.1 h
  have hinner : ∀ c ∈ inner path, c.Inner := fun c hc => mem_inner hc
  obtain ⟨names, hnames, hlookup⟩ := Option.bind_eq_some_iff.1 hf
  rw [locate?_ofComponents hne hinner hup hnames] at hlookup
  rw [namesOf, components_ofComponents hne hinner, hlookup]

theorem Tree.readText_congr (h : ∀ q, Confined q → t.file? q = t'.file? q) (path : String) :
    t.readText path = t'.readText path := by
  rw [readText, readText]
  cases hq : normalize path with
  | error e => rfl
  | ok q => simp only [h q (normalize_self hq).1]

theorem Tree.snippet_congr (h : ∀ q, Confined q → t.file? q = t'.file? q) (path : String) (start : Nat)
    (stop : Option Nat) : t.snippet path start stop = t'.snippet path start stop := by
  rw [snippet, snippet, readText_congr h]

theorem Tree.testsOf_congr (h : ∀ q, Confined q → t.file? q = t'.file? q) (path : String) :
    t.testsOf path = t'.testsOf path := by
  rw [testsOf, testsOf]
  cases hq : normalize path with
  | error e => rfl
  | ok q =>
      have hfiles : ∀ test ∈ Query.testCandidates q, t.isFile test = t'.isFile test := by
        intro test htest
        rw [isFile, isFile, h test (Query.confined_testCandidates (normalize_self hq).1 test htest)]
      exact congrArg Except.ok (List.filter_congr hfiles)

variable {path q : String}

theorem Store.requireFile_normalize (s : Store) (h : normalize path = .ok q) : s.requireFile path = s.requireFile q := by
  rw [requireFile, requireFile, h, (normalize_self h).2]

theorem Store.requireFile_error (s : Store) {e : Error} (h : normalize path = .error e) : s.requireFile path = .error e := by
  rw [requireFile, h]

theorem Store.similarFiles_normalize (s : Store) (h : normalize path = .ok q) (limit : Nat) (least : Float) :
    s.similarFiles path limit least = s.similarFiles q limit least := by
  rw [similarFiles, similarFiles, s.requireFile_normalize h]

theorem Store.similarFiles_error (s : Store) {e : Error} (h : normalize path = .error e) (limit : Nat) (least : Float) :
    ∃ e', s.similarFiles path limit least = .error e' := by
  rw [similarFiles, s.requireFile_error h]
  cases Query.resultLimit limit with
  | error e' => exact ⟨e', rfl⟩
  | ok limit =>
      simp only [bind, Except.bind]
      split
      · exact ⟨_, rfl⟩
      · exact ⟨e, rfl⟩

/-- A path is kept just if it is not absolute, does not step up and names something. What is kept of it are its names with
single slashes between them; this is its own form, lies below any directory that it is seen from, and leads down these
names. Two trees with the same files at such paths give the same lines and the same tests, whatever other paths lead to in
them; and a store answers as for the kept form, or refuses. -/
theorem Path.normalize_confines (path : String) :
    ((∃ q, normalize path = .ok q) ↔
      isAbsolute path = false ∧ .parent ∉ components path ∧ ∃ name, .normal name ∈ components path) ∧
    (∀ q, normalize path = .ok q →
      q ≠ "" ∧ isAbsolute q = false ∧ Confined q ∧ components q = (components path).filter (· ≠ .current) ∧
      normalize q = .ok q ∧ (∀ dir, relative? dir (join dir q) = some q) ∧
      ∀ (t : Tree) (f : SourceFile), t.file? q = some f → t.lookup (Tree.namesOf q) = some f) ∧
    (∀ t t' : Tree, (∀ q, Confined q → t.file? q = t'.file? q) →
      (∀ start stop, t.snippet path start stop = t'.snippet path start stop) ∧ t.testsOf path = t'.testsOf path) ∧
    ∀ s : Store,
      (∀ q, normalize path = .ok q → s.fileSummary path = s.fileSummary q ∧
        ∀ limit least, s.similarFiles path limit least = s.similarFiles q limit least) ∧
      ∀ e, normalize path = .error e → s.fileSummary path = .error e ∧
        ∀ limit least, ∃ e', s.similarFiles path limit least = .error e' := by
  refine ⟨exists_normalize_iff path, ?_, ?_, ?_⟩
  · intro q hq
    obtain ⟨hconfined, hself⟩ := normalize_self hq
    exact ⟨hconfined.ne_empty, hconfined.isAbsolute_eq, hconfined, components_normalize hq, hself,
      fun dir => relative?_join dir hq, fun _ _ hf => Tree.lookup_namesOf hq hf⟩
  · intro t t' hfiles
    exact ⟨Tree.snippet_congr hfiles path, Tree.testsOf_congr hfiles path⟩
  · intro s
    refine ⟨fun q hq => ⟨?_, s.similarFiles_normalize hq⟩, fun e he => ⟨?_, s.similarFiles_error he⟩⟩
    · rw [Store.fileSummary, Store.fileSummary, s.requireFile_normalize hq]
    · rw [Store.fileSummary, s.requireFile_error he]
      rfl

/-- A tree with a model and its test. -/
def shopTree (root : String) : Tree :=
  { root := root
    files := [(["app", "models", "user.rb"], ⟨[], 0⟩), (["spec", "models", "user_spec.rb"], ⟨[], 0⟩)]
    directories := [["app"], ["app", "models"], ["spec"], ["spec", "models"]] }

/-- A path with a detour, from which the test of the model is found wherever the tree lies, and a path that leads out. -/
theorem Path.normalize_confines_model :
    normalize "./app//models/./user.rb" = .ok "app/models/user.rb" ∧ Confined "app/models/user.rb" ∧
    (shopTree "/srv/shop").file? "/srv/shop/app/models/user.rb" ≠ (shopTree "/srv").file? "/srv/shop/app/models/user.rb" ∧
    (shopTree "/srv/shop").testsOf "./app//models/./user.rb" = (shopTree "/srv").testsOf "./app//models/./user.rb" ∧
    (shopTree "/srv").testsOf "./app//models/./user.rb" = .ok ["spec/models/user_spec.rb"] ∧
    (∀ s : Store, s.fileSummary "./app//models/./user.rb" = s.fileSummary "app/models/user.rb") ∧
    ∀ s : Store, s.fileSummary "app/../../secret.rb" = .error (.invalidQuery (.outsideRoot "app/../../secret.rb")) := by
  have hkept : normalize "./app//models/./user.rb" = .ok "app/models/user.rb" := by decide +kernel
  have hrefused : normalize "app/../../secret.rb" = .error (.invalidQuery (.outsideRoot "app/../../secret.rb")) := by
    decide +kernel
  obtain ⟨-, hform, htrees, hstores⟩ := normalize_confines "./app//models/./user.rb"
  have hfiles : ∀ q, Confined q → (shopTree "/srv/shop").file? q = (shopTree "/srv").file? q :=
    fun q hq => Tree.file?_congr hq rfl rfl
  exact ⟨hkept, (hform _ hkept).2.2.1, by decide +kernel, (htrees _ _ hfiles).2, by decide +kernel,
    fun s => ((hstores s).1 _ hkept).1, fun s => (((normalize_confines "app/../../secret.rb").2.2.2 s).2 _ hrefused).1⟩

end

end CodeAtlas
