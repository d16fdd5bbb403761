import CodeAtlas.Proofs.Catalog.Shelf
import CodeAtlas.Proofs.Sorting
/-!
# What a catalog answers

A catalog answers what the shelf that it represents answers (`Represents.answers`): the files by path, and the symbols of a
path or with a name, sorted so that symbols of one line stay in the order in which they were given. About a path it answers the
same after every operation that does not concern the path (`Represents.alikeAt`). Ids go up only, so none comes back
(`exists_file_of_later`). The theorem `performed_refines` puts this together.
-/

namespace CodeAtlas

/-! ## Symbols in order -/

/-- Whether `a` stands before `b` by line. -/
def Symbol.beforeInFile (a b : Symbol) : Bool := a.startLine ≤ b.startLine

theorem preorders_beforeInFile : Preorders Symbol.beforeInFile where
  trans a b c hab hbc := by
    simp only [Symbol.beforeInFile, decide_eq_true_eq] at *
    exact Nat.le_trans hab hbc
  total a b := by
    simp only [Symbol.beforeInFile, Bool.or_eq_true, decide_eq_true_eq]
    exact Nat.le_total _ _

namespace Catalog

theorem symbolBefore_iff {a b : Symbol} :
    symbolBefore a b = true ↔ a.path < b.path ∨ (a.path = b.path ∧ a.startLine ≤ b.startLine) := by
  simp [symbolBefore]

theorem symbolBefore_of_path_eq {a b : Symbol} (h : a.path = b.path) : symbolBefore a b = a.beforeInFile b := by
  simp [symbolBefore, Symbol.beforeInFile, h]

theorem preorders_symbolBefore : Preorders symbolBefore where
  trans a b c hab hbc := by
    rw [symbolBefore_iff] at *
    rcases hab with hab | ⟨hab, hline⟩
    · rcases hbc with hbc | ⟨hbc, -⟩
      · exact Or.inl (String.lt_trans hab hbc)
      · exact Or.inl (hbc ▸ hab)
    · rcases hbc with hbc | ⟨hbc, hline'⟩
      · exact Or.inl (hab ▸ hbc)
      · exact Or.inr ⟨hab.trans hbc, Nat.le_trans hline hline'⟩
  total a b := by
    rw [Bool.or_eq_true, symbolBefore_iff, symbolBefore_iff]
    by_cases hab : a.path = b.path
    · exact (Nat.le_total a.startLine b.startLine).imp (fun h => Or.inr ⟨hab, h⟩) fun h => Or.inr ⟨hab.symm, h⟩
    · by_cases hlt : a.path < b.path
      · exact Or.inl (Or.inl hlt)
      · refine Or.inr (Or.inl ?_)
        by_contra hnot
        exact hab (String.le_antisymm (String.not_lt.1 hnot) (String.not_lt.1 hlt))

/-- Symbols stand before each other if they are alike in path and line. -/
theorem alike_symbolBefore (a b : Symbol) :
    Alike symbolBefore a b = (decide (b.path = a.path) && Alike Symbol.beforeInFile a b) := by
  by_cases hpath : b.path = a.path
  · rw [Alike, symbolBefore_of_path_eq hpath.symm, symbolBefore_of_path_eq hpath, decide_eq_true hpath, Bool.true_and]
    rfl
  · rw [decide_eq_false hpath, Bool.false_and, Alike, Bool.and_eq_false_iff, ← Bool.not_eq_true, ← Bool.not_eq_true,
      symbolBefore_iff, symbolBefore_iff]
    by_cases hlt : a.path < b.path
    · refine Or.inr ?_
      rintro (hgt | ⟨heq, -⟩)
      · exact String.lt_irrefl _ (String.lt_trans hlt hgt)
      · exact hpath heq
    · refine Or.inl ?_
      rintro (hgt | ⟨heq, -⟩)
      · exact hlt hgt
      · exact hpath heq.symm

end Catalog

/-- Of parts that belong to different elements of a list only one is left. -/
theorem flatMap_eq_of_nodup {α β : Type*} [DecidableEq α] {l : List α} (hl : l.Nodup) {a : α} {part : List β}
    (h : a ∉ l → part = []) : (l.flatMap fun b => if b = a then part else []) = part := by
  induction l with
  | nil => exact (h List.not_mem_nil).symm
  | cons b rest ih =>
      rw [List.nodup_cons] at hl
      rw [List.flatMap_cons]
      by_cases heq : b = a
      · have hrest : (rest.flatMap fun c => if c = a then part else []) = [] := by
          rw [List.flatMap_eq_nil_iff]
          intro c hc
          refine if_neg ?_
          rintro rfl
          exact hl.1 (heq ▸ hc)
        rw [if_pos heq, hrest, List.append_nil]
      · rw [if_neg heq, List.nil_append]
        exact ih hl.2 fun hnot => h (by rw [List.mem_cons, not_or]; exact ⟨Ne.symm heq, hnot⟩)

namespace Shelf

/-- Whether a symbol has a name, and the kind if one is asked for. -/
def asked (name : String) (kind : Option SymbolKind) (s : Symbol) : Bool := s.name = name && kind.all (· = s.kind)

/-- The symbols of a path that are asked for, by line. -/
def foundIn (m : Shelf) (name : String) (kind : Option SymbolKind) (path : String) : List Symbol :=
  ((m.symbolsOf path).filter (asked name kind)).mergeSort Symbol.beforeInFile

theorem findSymbols_eq (m : Shelf) (name : String) (kind : Option SymbolKind) :
    m.findSymbols name kind = m.paths.flatMap (m.foundIn name kind) := rfl

theorem nodup_paths (m : Shelf) : m.paths.Nodup := Finset.sort_nodup _ _

theorem pairwise_paths (m : Shelf) : m.paths.Pairwise (· < ·) := by
  have hsorted : m.paths.Pairwise (· ≤ ·) := Finset.pairwise_sort _ _
  refine (hsorted.and m.nodup_paths).imp ?_
  intro p q hpq
  by_contra hnot
  exact hpq.2 (String.le_antisymm hpq.1 (String.not_lt.1 hnot))

variable {m : Shelf} {path : String}

theorem dossier?_of_not_mem (h : path ∉ m.paths) : m.dossier? path = none := by
  cases hd : m.dossier? path with
  | none => rfl
  | some d => exact absurd (mem_paths.2 ⟨d, hd⟩) h

theorem symbolsOf_of_not_mem (h : path ∉ m.paths) : m.symbolsOf path = [] := by
  rw [symbolsOf, dossier?_of_not_mem h]
  rfl

end Shelf

/-! ## The same answers -/

/-- A catalog answers what a shelf answers. Fingerprints are in no order. -/
structure SameAnswers (c : Catalog) (m : Shelf) : Prop where
  file : ∀ path, c.file? path = m.file? path
  files : c.listFiles = m.listFiles
  fingerprints : c.fingerprints.Perm m.fingerprints
  symbols : ∀ path, c.symbolsIn path = m.symbolsIn path
  found : ∀ name kind, c.findSymbols name kind = m.findSymbols name kind

namespace Represents

variable {c : Catalog} {m : Shelf} (h : Represents c m)

include h

theorem path_of_file? {path : String} {f : FileRecord} (hf : m.file? path = some f) : f.path = path :=
  (Catalog.file?_eq_some (h.files path ▸ hf)).2

theorem path_of_mem {path : String} {s : Symbol} (hs : s ∈ m.symbolsOf path) : s.path = path := by
  rw [h.symbols] at hs
  exact of_decide_eq_true (List.mem_filter.1 hs).2

theorem mem_listFiles {f : FileRecord} : f ∈ m.listFiles ↔ f ∈ c.files := by
  rw [Shelf.listFiles, List.mem_filterMap]
  constructor
  · rintro ⟨path, -, hf⟩
    exact (Catalog.file?_eq_some (h.files path ▸ hf)).1
  · intro hf
    have hfile : m.file? f.path = some f := by
      rw [h.files]
      exact (Catalog.file?_eq_some_iff h.wellFormed).2 ⟨hf, rfl⟩
    obtain ⟨d, hd, -⟩ := Option.map_eq_some_iff.1 hfile
    exact ⟨f.path, Shelf.mem_paths.2 ⟨d, hd⟩, hfile⟩

theorem perm_listFiles : c.files.Perm m.listFiles := by
  have hnodup : m.listFiles.Nodup := by
    refine m.nodup_paths.filterMap ?_
    intro p q f hp hq
    rw [← h.path_of_file? hp, ← h.path_of_file? hq]
  rw [List.perm_ext_iff_of_nodup h.wellFormed.ids.of_map hnodup]
  exact fun f => h.mem_listFiles.symm

theorem listFiles_eq : c.listFiles = m.listFiles := by
  have hsorted : m.listFiles.Pairwise fun a b => decide (a.path ≤ b.path) = true := by
    refine m.pairwise_paths.filterMap _ ?_
    intro p q hpq f hf f' hf'
    rw [h.path_of_file? hf, h.path_of_file? hf', decide_eq_true_eq]
    exact String.not_lt.1 fun hqp => String.lt_irrefl _ (String.lt_trans hpq hqp)
  refine List.Perm.eq_of_pairwise ?_ (List.pairwise_mergeSort ?_ ?_ c.files) hsorted
    ((List.mergeSort_perm _ _).trans h.perm_listFiles)
  · intro a b ha hb hab hba
    have hpath := String.le_antisymm (of_decide_eq_true hab) (of_decide_eq_true hba)
    exact h.wellFormed.file_eq_of_path (List.mem_mergeSort.1 ha) (h.mem_listFiles.1 hb) hpath
  · intro a b f hab hbf
    exact decide_eq_true (String.le_trans (of_decide_eq_true hab) (of_decide_eq_true hbf))
  · intro a b
    simpa using String.le_total a.path b.path

theorem perm_fingerprints : c.fingerprints.Perm m.fingerprints := by
  have hmap : m.fingerprints = m.listFiles.map fun f => (f.path, f.fingerprint) := by
    rw [Shelf.fingerprints, Shelf.listFiles, List.map_filterMap]
    refine List.filterMap_congr fun path _ => ?_
    cases hf : m.file? path with
    | none => rfl
    | some f => rw [Option.map_some, Option.map_some, h.path_of_file? hf]
  rw [hmap]
  exact h.perm_listFiles.map _

theorem symbolsIn_eq (path : String) : c.symbolsIn path = m.symbolsIn path := by
  rw [Shelf.symbolsIn, h.symbols]
  rfl

theorem path_of_mem_foundIn {name path : String} {kind : Option SymbolKind} {s : Symbol} (hs : s ∈ m.foundIn name kind path) :
    s.path = path :=
  h.path_of_mem (List.mem_filter.1 (List.mem_mergeSort.1 hs)).1

theorem pairwise_findSymbols (name : String) (kind : Option SymbolKind) :
    (m.findSymbols name kind).Pairwise fun a b => Catalog.symbolBefore a b = true := by
  rw [Shelf.findSymbols_eq, List.pairwise_flatMap]
  constructor
  · intro path _
    have hsorted := List.pairwise_mergeSort preorders_beforeInFile.trans preorders_beforeInFile.total
      ((m.symbolsOf path).filter (Shelf.asked name kind))
    refine List.Pairwise.imp_of_mem ?_ hsorted
    intro a b ha hb hab
    rwa [Catalog.symbolBefore_of_path_eq]
    rw [h.path_of_mem_foundIn ha, h.path_of_mem_foundIn hb]
  · refine m.pairwise_paths.imp ?_
    intro p q hpq a ha b hb
    rw [Catalog.symbolBefore_iff, h.path_of_mem_foundIn ha, h.path_of_mem_foundIn hb]
    exact Or.inl hpq

/-- What is found in a path that satisfies a property of this path. -/
theorem filter_findSymbols (name : String) (kind : Option SymbolKind) (path : String) (p : Symbol → Bool) :
    (m.findSymbols name kind).filter (fun s => decide (s.path = path) && p s) = (m.foundIn name kind path).filter p := by
  rw [Shelf.findSymbols_eq, List.filter_flatMap]
  have hpart : ∀ q ∈ m.paths, (m.foundIn name kind q).filter (fun s => decide (s.path = path) && p s) =
      if q = path then (m.foundIn name kind path).filter p else [] := by
    intro q _
    split
    · next heq =>
        rw [heq]
        refine List.filter_congr fun s hs => ?_
        rw [h.path_of_mem_foundIn hs, decide_eq_true rfl, Bool.true_and]
    · next hne =>
        rw [List.filter_eq_nil_iff]
        intro s hs hboth
        rw [h.path_of_mem_foundIn hs, decide_eq_false hne] at hboth
        cases hboth
  rw [List.flatMap_congr hpart]
  refine flatMap_eq_of_nodup m.nodup_paths fun hnot => ?_
  rw [Shelf.foundIn, Shelf.symbolsOf_of_not_mem hnot, List.filter_nil, List.mergeSort_nil, List.filter_nil]

theorem findSymbols_eq (name : String) (kind : Option SymbolKind) : c.findSymbols name kind = m.findSymbols name kind := by
  have hasked : c.findSymbols name kind =
      ((c.symbols.map (·.symbol)).filter (Shelf.asked name kind)).mergeSort Catalog.symbolBefore := by
    rw [Catalog.findSymbols]
    congr 1
    refine List.filter_congr fun s _ => ?_
    cases kind with
    | none => simp [Shelf.asked]
    | some k => simp [Shelf.asked, eq_comm]
  rw [hasked]
  refine mergeSort_eq_of_filter_eq Catalog.preorders_symbolBefore (h.pairwise_findSymbols name kind) fun a => ?_
  -- a class lies in one path, where the sorting by line keeps it
  have hclass : Alike Catalog.symbolBefore a = fun s => decide (s.path = a.path) && Alike Symbol.beforeInFile a s :=
    funext (Catalog.alike_symbolBefore a)
  rw [hclass, h.filter_findSymbols, Shelf.foundIn, filter_mergeSort preorders_beforeInFile, h.symbols, Catalog.symbolsOf,
    List.filter_filter, List.filter_filter, List.filter_filter]
  refine List.filter_congr fun s _ => ?_
  cases Shelf.asked name kind s <;> cases decide (s.path = a.path) <;> cases Alike Symbol.beforeInFile a s <;> rfl

theorem answers : SameAnswers c m :=
  ⟨fun path => (h.files path).symm, h.listFiles_eq, h.perm_fingerprints, h.symbolsIn_eq, h.findSymbols_eq⟩

/-! ## Other paths -/

theorem filter_listFiles (path : String) : c.listFiles.filter (·.path = path) = (c.file? path).toList := by
  rw [h.listFiles_eq, Shelf.listFiles, List.filterMap_eq_flatMap_toList, List.filter_flatMap]
  have hpart : ∀ q ∈ m.paths, (m.file? q).toList.filter (·.path = path) = if q = path then (c.file? path).toList else [] := by
    intro q _
    rw [← h.files]
    cases hf : m.file? q with
    | none =>
        split
        · next heq =>
            rw [← heq, hf]
            rfl
        · rfl
    | some f =>
        rw [Option.toList_some, List.filter_singleton, h.path_of_file? hf]
        split
        · next heq => simp [← heq, hf]
        · next hne => simp [hne]
  rw [List.flatMap_congr hpart]
  refine flatMap_eq_of_nodup m.nodup_paths fun hnot => ?_
  rw [← h.files, Shelf.file?, Shelf.dossier?_of_not_mem hnot]
  rfl

theorem filter_findSymbols_path (name : String) (kind : Option SymbolKind) (path : String) :
    (c.findSymbols name kind).filter (·.path = path) = m.foundIn name kind path := by
  have hall := h.filter_findSymbols name kind path fun _ => true
  simpa [h.findSymbols_eq] using hall

end Represents

namespace Catalog

theorem lookup_fingerprints (c : Catalog) (path : String) : c.fingerprints.lookup path = c.fingerprint? path := by
  rw [fingerprints, fingerprint?, file?]
  induction c.files with
  | nil => rfl
  | cons f rest ih =>
      rw [List.map_cons, List.lookup_cons, List.find?_cons]
      by_cases hpath : path = f.path
      · simp [hpath]
      · rw [beq_false_of_ne hpath, decide_eq_false (Ne.symm hpath)]
        exact ih

/-- The operation is about the file at a path. -/
def Operation.Concerns (c : Catalog) (path : String) : Operation → Prop
  | .enter e => e.path = path
  | .replace id _ => ∃ f ∈ c.files, f.id = id ∧ f.path = path
  | .remove p => p = path
  | .clear => True

/-- Two catalogs answer alike about a path. -/
structure AlikeAt (path : String) (c c' : Catalog) : Prop where
  file : c'.file? path = c.file? path
  listed : c'.listFiles.filter (·.path = path) = c.listFiles.filter (·.path = path)
  fingerprint : c'.fingerprints.lookup path = c.fingerprints.lookup path
  symbols : c'.symbolsIn path = c.symbolsIn path
  found : ∀ name kind, (c'.findSymbols name kind).filter (·.path = path) = (c.findSymbols name kind).filter (·.path = path)

end Catalog

namespace Represents

variable {c c' : Catalog} {m m' : Shelf} {path : String}

/-- Answers about a path depend on its dossier only. -/
theorem alikeAt (h : Represents c m) (h' : Represents c' m') (hsame : m'.dossier? path = m.dossier? path) :
    Catalog.AlikeAt path c c' := by
  have hfile : c'.file? path = c.file? path := by
    rw [← h.files, ← h'.files, Shelf.file?, hsame]
    rfl
  have hsymbols : m'.symbolsOf path = m.symbolsOf path := by
    rw [Shelf.symbolsOf, hsame]
    rfl
  refine ⟨hfile, ?_, ?_, ?_, ?_⟩
  · rw [h.filter_listFiles, h'.filter_listFiles, hfile]
  · rw [Catalog.lookup_fingerprints, Catalog.lookup_fingerprints, Catalog.fingerprint?, hfile]
    rfl
  · rw [h.symbolsIn_eq, h'.symbolsIn_eq, Shelf.symbolsIn, hsymbols]
    rfl
  · intro name kind
    rw [h.filter_findSymbols_path, h'.filter_findSymbols_path, Shelf.foundIn, hsymbols]
    rfl

theorem dossier?_perform (h : Represents c m) {op : Catalog.Operation} (hother : ¬ op.Concerns c path) :
    (m.perform op).1.dossier? path = m.dossier? path := by
  cases op with
  | enter e =>
      refine (m.lookup_insert e.path (m.renewed e) path).trans (if_neg ?_)
      exact fun heq => hother heq.symm
  | replace id symbols =>
      rw [Shelf.perform]
      cases hd : m.withId? id with
      | none =>
          rw [(h.replace_of_withId?_eq_none hd symbols).2]
          cases symbols.isEmpty <;> rfl
      | some d =>
          obtain ⟨hlookup, hid⟩ := h.withId?_eq_some_iff.1 hd
          rw [Shelf.replace, hd]
          refine (m.lookup_insert _ _ path).trans (if_neg ?_)
          exact fun heq => hother ⟨d.file, (h.mem_files hlookup).1, hid, heq.symm⟩
  | remove p => exact Finmap.lookup_erase_ne fun heq => hother heq.symm
  | clear => exact absurd trivial hother

end Represents

/-! ## Ids -/

namespace Catalog

/-- The operation ends the file at a path. -/
def Operation.Drops (path : String) : Operation → Prop
  | .remove p => p = path
  | .clear => True
  | _ => False

section

variable {c : Catalog} {op : Operation}

theorem files_replace (c : Catalog) (id : Int) (symbols : List Symbol) :
    (c.perform (.replace id symbols)).1.files = c.files ∧ (c.perform (.replace id symbols)).1.nextFile = c.nextFile := by
  rw [perform, replaceSymbols]
  cases c.fileById? id with
  | some f => exact ⟨rfl, rfl⟩
  | none => cases symbols.isEmpty <;> exact ⟨rfl, rfl⟩

theorem nextFile_le_perform (c : Catalog) (op : Operation) : c.nextFile ≤ (c.perform op).1.nextFile := by
  cases op with
  | enter e =>
      rw [perform, upsertFile_nextFile]
      omega
  | replace id symbols => rw [(files_replace c id symbols).2]
  | remove path =>
      rw [perform, removeFile_nextFile]
  | clear => exact le_refl _

/-- A file keeps its id while it is not dropped. -/
theorem id_perform (hc : c.WellFormed) {path : String} {f : FileRecord} (hf : c.file? path = some f) (hkept : ¬ op.Drops path) :
    ∃ f', (c.perform op).1.file? path = some f' ∧ f'.id = f.id := by
  cases op with
  | enter e =>
      rw [perform, file?_upsertFile hc]
      split
      · next heq =>
          refine ⟨_, rfl, ?_⟩
          change (c.upsertFile e).2 = f.id
          rw [upsertFile_snd, ← heq, hf]
          rfl
      · exact ⟨f, hf, rfl⟩
  | replace id symbols =>
      refine ⟨f, ?_, rfl⟩
      rw [file?, (files_replace c id symbols).1]
      exact hf
  | remove p =>
      rw [perform, file?_removeFile hc, if_neg fun heq => hkept heq.symm]
      exact ⟨f, hf, rfl⟩
  | clear => exact absurd trivial hkept

/-- A file with an id that had been given before was there before. -/
theorem exists_file_before (hc : c.WellFormed) {f : FileRecord} (hf : f ∈ (c.perform op).1.files) (hid : f.id < c.nextFile) :
    ∃ g ∈ c.files, g.id = f.id ∧ g.path = f.path := by
  cases op with
  | enter e =>
      rcases (mem_upsertFile hc e f).1 hf with rfl | ⟨hold, -⟩
      · change (c.upsertFile e).2 < c.nextFile at hid
        change ∃ g ∈ c.files, g.id = (c.upsertFile e).2 ∧ g.path = e.path
        rw [upsertFile_snd] at hid ⊢
        cases hfile : c.file? e.path with
        | none =>
            rw [hfile] at hid
            exact absurd hid (lt_irrefl _)
        | some old =>
            obtain ⟨hmem, hpath⟩ := file?_eq_some hfile
            exact ⟨old, hmem, rfl, hpath⟩
      · exact ⟨f, hold, rfl, rfl⟩
  | replace id symbols =>
      rw [(files_replace c id symbols).1] at hf
      exact ⟨f, hf, rfl, rfl⟩
  | remove path =>
      rw [perform, removeFile] at hf
      split at hf
      · exact ⟨f, hf, rfl, rfl⟩
      · exact ⟨f, (List.mem_filter.1 hf).1, rfl, rfl⟩
  | clear => exact absurd hf List.not_mem_nil

end

variable {operations more : List Operation}

theorem nextFile_le_performed (operations more : List Operation) :
    (performed operations).nextFile ≤ (performed (operations ++ more)).nextFile := by
  induction more using List.reverseRecOn with
  | nil => rw [List.append_nil]
  | append_singleton more op ih =>
      rw [← List.append_assoc, performed_append]
      exact le_trans ih (nextFile_le_perform _ op)

theorem id_performed {path : String} {f : FileRecord} (hf : (performed operations).file? path = some f)
    (hkept : ∀ op ∈ more, ¬ op.Drops path) : ∃ f', (performed (operations ++ more)).file? path = some f' ∧ f'.id = f.id := by
  induction more using List.reverseRecOn with
  | nil => exact ⟨f, by rw [List.append_nil]; exact hf, rfl⟩
  | append_singleton more op ih =>
      obtain ⟨g, hg, hgid⟩ := ih fun op hop => hkept op (List.mem_append_left _ hop)
      rw [← List.append_assoc, performed_append]
      obtain ⟨f', hf', hid⟩ := id_perform (represents_performed _).wellFormed hg
        (hkept op (List.mem_append_right _ (List.mem_singleton_self op)))
      exact ⟨f', hf', hid.trans hgid⟩

/-- A file whose id was given at some time was there at that time. -/
theorem exists_file_of_later {f : FileRecord} (hf : f ∈ (performed (operations ++ more)).files)
    (hid : f.id < (performed operations).nextFile) : ∃ g ∈ (performed operations).files, g.id = f.id ∧ g.path = f.path := by
  induction more using List.reverseRecOn generalizing f with
  | nil => exact ⟨f, by rw [List.append_nil] at hf; exact hf, rfl, rfl⟩
  | append_singleton more op ih =>
      rw [← List.append_assoc, performed_append] at hf
      have hgiven := lt_of_lt_of_le hid (nextFile_le_performed operations more)
      obtain ⟨g, hg, hgid, hgpath⟩ := exists_file_before (represents_performed _).wellFormed hf hgiven
      obtain ⟨k, hk, hkid, hkpath⟩ := ih hg (hgid ▸ hid)
      exact ⟨k, hk, hkid.trans hgid, hkpath.trans hgpath⟩

/-- A path that has an id at two times is one path, and has the id at all times between. -/
theorem id_between {p q : String} {f g : FileRecord} (hf : (performed operations).file? p = some f)
    (hg : (performed (operations ++ more)).file? q = some g) (hid : f.id = g.id) :
    p = q ∧ ∀ first last, more = first ++ last → ∃ k, (performed (operations ++ first)).file? p = some k ∧ k.id = f.id := by
  obtain ⟨hfmem, rfl⟩ := file?_eq_some hf
  obtain ⟨hgmem, rfl⟩ := file?_eq_some hg
  have hgiven : g.id < (performed operations).nextFile := hid ▸ (represents_performed operations).wellFormed.below f hfmem
  obtain ⟨k, hk, hkid, hkpath⟩ := exists_file_of_later hgmem hgiven
  have hpath : f.path = g.path := by
    rw [(represents_performed operations).wellFormed.file_eq_of_id hfmem hk (hid.trans hkid.symm), hkpath]
  refine ⟨hpath, ?_⟩
  rintro first last rfl
  rw [← List.append_assoc] at hgmem
  obtain ⟨k', hk', hkid', hkpath'⟩ := exists_file_of_later hgmem
    (lt_of_lt_of_le hgiven (nextFile_le_performed operations first))
  refine ⟨k', (file?_eq_some_iff (represents_performed _).wellFormed).2 ⟨hk', hkpath'.trans hpath.symm⟩, hkid'.trans hid.symm⟩

/-- The symbols of an id that no file has cannot be replaced by any. -/
theorem replaceSymbols_of_unknown {c : Catalog} {id : Int} {symbols : List Symbol} (hunknown : ∀ f ∈ c.files, f.id ≠ id)
    (hsymbols : symbols ≠ []) : c.replaceSymbols id symbols = .error (.storage .danglingReference) := by
  have hfind : c.fileById? id = none := List.find?_eq_none.2 fun f hf => by simpa using hunknown f hf
  simp only [replaceSymbols, hfind, List.isEmpty_iff, if_neg hsymbols]

/-- The catalog refines the shelf. After any operations on an empty catalog, it answers and replies as the shelf does. A file
keeps its id until it is dropped, and what has an id at two times is one file at all times between. An operation leaves every
answer about the paths that it does not concern. Symbols for an id that no file has are refused, and nothing changes. -/
theorem performed_refines (operations : List Operation) :
    SameAnswers (performed operations) (Shelf.performed operations) ∧
    (∀ op, ((performed operations).perform op).2 = ((Shelf.performed operations).perform op).2) ∧
    (∀ more path f, (performed operations).file? path = some f → (∀ op ∈ more, ¬ op.Drops path) →
      ∃ f', (performed (operations ++ more)).file? path = some f' ∧ f'.id = f.id) ∧
    (∀ more p q f g, (performed operations).file? p = some f → (performed (operations ++ more)).file? q = some g →
      f.id = g.id → p = q ∧ ∀ first last, more = first ++ last →
        ∃ k, (performed (operations ++ first)).file? p = some k ∧ k.id = f.id) ∧
    (∀ op path, ¬ op.Concerns (performed operations) path →
      AlikeAt path (performed operations) (performed (operations ++ [op]))) ∧
    ∀ id symbols, (∀ f ∈ (performed operations).files, f.id ≠ id) → symbols ≠ [] →
      (performed operations).perform (.replace id symbols) =
        (performed operations, .refused (.storage .danglingReference)) := by
  have h := represents_performed operations
  refine ⟨h.answers, fun op => (h.perform op).2.symm, fun _ _ _ => id_performed, fun _ _ _ _ _ => id_between, ?_, ?_⟩
  · intro op path hother
    rw [performed_append]
    exact h.alikeAt (h.perform op).1 (h.dossier?_perform hother)
  · intro id symbols hunknown hsymbols
    rw [perform, replaceSymbols_of_unknown hunknown hsymbols]

/-- An entry without contents. -/
def bareEntry (path : String) : FileEntry :=
  { path := path, fingerprint := "", category := .other, lineCount := 0, modified := none, indexedAt := 0 }

/-- Two files, of which the first has two symbols on one line and is entered again, and the second is removed. -/
def shelving : List Operation :=
  [.enter (bareEntry "b.rb"), .enter (bareEntry "a.rb"),
    .replace 1 [{ path := "", name := "late", kind := .method, startLine := 3, endLine := 3 },
      { path := "", name := "early", kind := .method, startLine := 3, endLine := 3 }],
    .enter (bareEntry "b.rb"), .remove "a.rb"]

/-- The first file keeps its id, and so do its answers when another is entered; the id of the second has no file any more. -/
theorem performed_refines_shelving :
    SameAnswers (performed shelving) (Shelf.performed shelving) ∧
    (∃ f, (performed (shelving ++ [.enter (bareEntry "b.rb")])).file? "b.rb" = some f ∧ f.id = 1) ∧
    (∀ g, (performed (shelving ++ [.enter (bareEntry "c.rb")])).file? "c.rb" = some g → g.id ≠ 1) ∧
    AlikeAt "b.rb" (performed shelving) (performed (shelving ++ [.enter (bareEntry "c.rb")])) ∧
    ∀ s, (performed shelving).perform (.replace 2 [s]) = (performed shelving, .refused (.storage .danglingReference)) := by
  obtain ⟨hanswers, -, hkept, hbetween, halike, hrefused⟩ := performed_refines shelving
  have hfile : (performed shelving).file? "b.rb" = some ((bareEntry "b.rb").stored 1) := by decide
  refine ⟨hanswers, hkept _ _ _ hfile (by simp [Operation.Drops]), ?_, halike _ _ (by simp [Operation.Concerns, bareEntry]),
    fun s => hrefused 2 [s] (by decide) (by simp)⟩
  intro g hg hid
  exact absurd (hbetween _ _ _ _ g hfile hg hid.symm).1 (by decide)

end Catalog

end CodeAtlas
