import CodeAtlas.Catalog.Basic
import CodeAtlas.Proofs.Table
/-!
# Which file owns a symbol

In a well-formed catalog every path and every id belongs to one file, and every symbol to the file with its path. The
operations keep this, and change the symbols of one file only.
-/

namespace CodeAtlas.Catalog

/-- Ids and paths of files occur once, ids to be given next are new, and every symbol is owned by the file with its
path. -/
structure WellFormed (c : Catalog) : Prop where
  ids : (c.files.map FileRecord.id).Nodup
  paths : (c.files.map FileRecord.path).Nodup
  below : ∀ f ∈ c.files, f.id < c.nextFile
  owned : ∀ s ∈ c.symbols, ∃ f ∈ c.files, f.id = s.file ∧ f.path = s.symbol.path

/-- A file with this path is in the catalog. -/
def Indexed (c : Catalog) (path : String) : Prop := ∃ f ∈ c.files, f.path = path

/-- A symbol is stored for a path, under whatever id. -/
def Stores (c : Catalog) (path : String) (s : Symbol) : Prop :=
  ∃ owned ∈ c.symbols, ∃ id, owned.symbol = { s with id := id, path := path }

theorem wellFormed_empty : ({} : Catalog).WellFormed := by
  constructor <;> simp

theorem WellFormed.clear {c : Catalog} : c.clear.WellFormed := by
  constructor <;> simp [Catalog.clear]

theorem not_indexed_clear (c : Catalog) (path : String) : ¬ c.clear.Indexed path := by
  simp [Indexed, Catalog.clear]

theorem WellFormed.keyed {c : Catalog} (hc : c.WellFormed) : Keyed FileRecord.id FileRecord.path c.nextFile c.files :=
  ⟨hc.ids, hc.paths, hc.below⟩

theorem WellFormed.file_eq_of_id {c : Catalog} (hc : c.WellFormed) {f f' : FileRecord} (hf : f ∈ c.files)
    (hf' : f' ∈ c.files) (h : f.id = f'.id) : f = f' :=
  hc.keyed.eq_of_id hf hf' h

theorem WellFormed.file_eq_of_path {c : Catalog} (hc : c.WellFormed) {f f' : FileRecord} (hf : f ∈ c.files)
    (hf' : f' ∈ c.files) (h : f.path = f'.path) : f = f' :=
  hc.keyed.eq_of_key hf hf' h

theorem file?_eq_some {c : Catalog} {path : String} {f : FileRecord} (h : c.file? path = some f) :
    f ∈ c.files ∧ f.path = path :=
  ⟨List.mem_of_find?_eq_some h, by simpa using List.find?_some h⟩

theorem file?_eq_none {c : Catalog} {path : String} (h : c.file? path = none) : ¬ c.Indexed path := by
  rintro ⟨f, hf, hpath⟩
  have hno := List.find?_eq_none.1 h f hf
  simp [hpath] at hno

theorem file?_eq_some_iff {c : Catalog} (hc : c.WellFormed) {path : String} {f : FileRecord} :
    c.file? path = some f ↔ f ∈ c.files ∧ f.path = path := by
  refine ⟨file?_eq_some, fun ⟨hf, hpath⟩ => ?_⟩
  cases hfound : c.file? path with
  | none => exact absurd ⟨f, hf, hpath⟩ (file?_eq_none hfound)
  | some found =>
      obtain ⟨hmem, hsame⟩ := file?_eq_some hfound
      rw [hc.file_eq_of_path hmem hf (hsame.trans hpath.symm)]

@[simp] theorem upsertFile_symbols (c : Catalog) (e : FileEntry) : (c.upsertFile e).1.symbols = c.symbols := by
  unfold upsertFile
  split <;> rfl

/-- The files after an entry: the file entered, and the others as they were. -/
theorem mem_upsertFile {c : Catalog} (hc : c.WellFormed) (e : FileEntry) (f : FileRecord) :
    f ∈ (c.upsertFile e).1.files ↔
      f = e.stored (c.upsertFile e).2 ∨ (f ∈ c.files ∧ f.path ≠ e.path) := by
  cases hold : c.file? e.path with
  | some old =>
      obtain ⟨hmem, hpath⟩ := file?_eq_some hold
      simp only [upsertFile, hold]
      rw [← hpath]
      exact hc.keyed.mem_replace hmem (fun _ => e.stored old.id) f
  | none =>
      simp only [upsertFile, hold]
      exact Keyed.mem_add (fun a ha h => file?_eq_none hold ⟨a, ha, h⟩) f

theorem keyed_upsertFile {c : Catalog} (hc : c.WellFormed) (e : FileEntry) :
    Keyed FileRecord.id FileRecord.path (c.upsertFile e).1.nextFile (c.upsertFile e).1.files := by
  cases hold : c.file? e.path with
  | some old =>
      obtain ⟨hmem, hpath⟩ := file?_eq_some hold
      simp only [upsertFile, hold]
      exact hc.keyed.replace hmem rfl hpath.symm
  | none =>
      simp only [upsertFile, hold]
      exact hc.keyed.add rfl fun a ha h => file?_eq_none hold ⟨a, ha, h⟩

theorem indexed_upsertFile {c : Catalog} (hc : c.WellFormed) (e : FileEntry) (path : String) :
    (c.upsertFile e).1.Indexed path ↔ c.Indexed path ∨ path = e.path := by
  simp only [Indexed, mem_upsertFile hc]
  constructor
  · rintro ⟨f, rfl | ⟨hf, _⟩, rfl⟩
    · exact Or.inr rfl
    · exact Or.inl ⟨f, hf, rfl⟩
  · rintro (⟨f, hf, rfl⟩ | rfl)
    · by_cases h : f.path = e.path
      · exact ⟨_, Or.inl rfl, h.symm⟩
      · exact ⟨f, Or.inr ⟨hf, h⟩, rfl⟩
    · exact ⟨_, Or.inl rfl, rfl⟩

theorem WellFormed.upsertFile {c : Catalog} (hc : c.WellFormed) (e : FileEntry) : (c.upsertFile e).1.WellFormed := by
  have hfiles := keyed_upsertFile hc e
  refine ⟨hfiles.ids, hfiles.keys, hfiles.below, ?_⟩
  intro s hs
  rw [upsertFile_symbols] at hs
  obtain ⟨f, hf, hid, hpath⟩ := hc.owned s hs
  by_cases h : f.path = e.path
  · refine ⟨_, (mem_upsertFile hc e _).2 (Or.inl rfl), ?_, h.symm.trans hpath⟩
    -- the file keeps the id under which it owns its symbols
    cases hold : c.file? e.path with
    | some old =>
        obtain ⟨hmem, hold'⟩ := file?_eq_some hold
        rw [← hid, hc.file_eq_of_path hf hmem (h.trans hold'.symm)]
        simp [Catalog.upsertFile, hold, FileEntry.stored]
    | none => exact absurd ⟨f, hf, h⟩ (file?_eq_none hold)
  · exact ⟨f, (mem_upsertFile hc e f).2 (Or.inr ⟨hf, h⟩), hid, hpath⟩

/-! ## Replacing symbols -/

theorem mem_number {f : FileRecord} {id : Int} {symbols : List Symbol} {owned : OwnedSymbol}
    (h : owned ∈ number f id symbols) :
    ∃ s ∈ symbols, ∃ k, owned = ⟨f.id, { s with id := some k, path := f.path }⟩ := by
  induction symbols generalizing id with
  | nil => exact absurd h (by simp [number])
  | cons s rest ih =>
      rcases List.mem_cons.1 h with rfl | h
      · exact ⟨s, List.mem_cons_self, id, rfl⟩
      · obtain ⟨s', hs', k, heq⟩ := ih h
        exact ⟨s', List.mem_cons_of_mem _ hs', k, heq⟩

theorem exists_mem_number (f : FileRecord) (id : Int) {symbols : List Symbol} {s : Symbol} (h : s ∈ symbols) :
    ∃ k, (⟨f.id, { s with id := some k, path := f.path }⟩ : OwnedSymbol) ∈ number f id symbols := by
  induction symbols generalizing id with
  | nil => exact absurd h (by simp)
  | cons s' rest ih =>
      rcases List.mem_cons.1 h with rfl | h
      · exact ⟨id, List.mem_cons_self⟩
      · obtain ⟨k, hk⟩ := ih (id + 1) h
        exact ⟨k, List.mem_cons_of_mem _ hk⟩

theorem fileById?_eq_some_iff {c : Catalog} (hc : c.WellFormed) {id : Int} {f : FileRecord} :
    c.fileById? id = some f ↔ f ∈ c.files ∧ f.id = id := by
  constructor
  · intro h
    exact ⟨List.mem_of_find?_eq_some h, by simpa using List.find?_some h⟩
  · rintro ⟨hf, rfl⟩
    cases hfound : c.fileById? f.id with
    | none =>
        have hno := List.find?_eq_none.1 hfound f hf
        simp at hno
    | some found =>
        have hid : found.id = f.id := by simpa using List.find?_some hfound
        rw [hc.file_eq_of_id (List.mem_of_find?_eq_some hfound) hf hid]

/-- The symbols of a file that is there can be replaced. -/
theorem replaceSymbols_eq {c : Catalog} (hc : c.WellFormed) {f : FileRecord} (hf : f ∈ c.files)
    (symbols : List Symbol) :
    c.replaceSymbols f.id symbols = .ok { c with
      symbols := c.symbols.filter (·.file ≠ f.id) ++ number f c.nextSymbol symbols
      nextSymbol := c.nextSymbol + symbols.length } := by
  have hfind : c.fileById? f.id = some f := (fileById?_eq_some_iff hc).2 ⟨hf, rfl⟩
  simp only [replaceSymbols, hfind]

/-- A file with its symbols: those of the others stay, and those given are stored for it. -/
theorem replaceSymbols_spec {c c' : Catalog} (hc : c.WellFormed) {f : FileRecord} (hf : f ∈ c.files)
    {symbols : List Symbol} (h : c.replaceSymbols f.id symbols = .ok c') :
    c'.WellFormed ∧ c'.files = c.files ∧ (∀ s ∈ symbols, c'.Stores f.path s) ∧
      ∀ path s, path ≠ f.path → c.Stores path s → c'.Stores path s := by
  rw [replaceSymbols_eq hc hf, Except.ok.injEq] at h
  subst h
  refine ⟨⟨hc.ids, hc.paths, hc.below, ?_⟩, rfl, ?_, ?_⟩
  · intro s hs
    rcases List.mem_append.1 hs with hs | hs
    · exact hc.owned s (List.mem_filter.1 hs).1
    · obtain ⟨s', _, k, rfl⟩ := mem_number hs
      exact ⟨f, hf, rfl, rfl⟩
  · intro s hs
    obtain ⟨k, hk⟩ := exists_mem_number f c.nextSymbol hs
    exact ⟨_, List.mem_append_right _ hk, some k, rfl⟩
  · rintro path s hne ⟨owned, howned, id, heq⟩
    refine ⟨owned, List.mem_append_left _ (List.mem_filter.2 ⟨howned, ?_⟩), id, heq⟩
    obtain ⟨f', hf', hid, hpath⟩ := hc.owned owned howned
    rw [heq] at hpath
    simp only [ne_eq, decide_eq_true_eq]
    intro hfile
    rw [hc.file_eq_of_id hf' hf (hid.trans hfile)] at hpath
    exact hne hpath.symm

/-! ## Removing a file -/

/-- Without a file its symbols are gone, and those of the others stay. -/
theorem removeFile_spec {c : Catalog} (hc : c.WellFormed) (path : String) :
    (c.removeFile path).1.WellFormed ∧
      (∀ q, (c.removeFile path).1.Indexed q ↔ c.Indexed q ∧ q ≠ path) ∧
      ∀ q s, q ≠ path → c.Stores q s → (c.removeFile path).1.Stores q s := by
  unfold removeFile
  cases hf : c.file? path with
  | none =>
      refine ⟨hc, fun q => ⟨fun h => ⟨h, ?_⟩, And.left⟩, fun _ _ _ h => h⟩
      rintro rfl
      exact file?_eq_none hf h
  | some f =>
      obtain ⟨hmem, hpath⟩ := file?_eq_some hf
      refine ⟨⟨?_, ?_, ?_, ?_⟩, ?_, ?_⟩
      · exact hc.ids.sublist (List.filter_sublist.map _)
      · exact hc.paths.sublist (List.filter_sublist.map _)
      · intro f' hf'
        exact hc.below f' (List.mem_filter.1 hf').1
      · intro s hs
        obtain ⟨hs, hne⟩ := List.mem_filter.1 hs
        obtain ⟨f', hf', hid, hpath'⟩ := hc.owned s hs
        refine ⟨f', List.mem_filter.2 ⟨hf', ?_⟩, hid, hpath'⟩
        simp only [ne_eq, decide_eq_true_eq] at hne ⊢
        intro h
        rw [hc.file_eq_of_path hf' hmem (h.trans hpath.symm)] at hid
        exact hne hid.symm
      · intro q
        simp only [Indexed, List.mem_filter]
        constructor
        · rintro ⟨f', ⟨hf', hne⟩, rfl⟩
          exact ⟨⟨f', hf', rfl⟩, by simpa using hne⟩
        · rintro ⟨⟨f', hf', rfl⟩, hne⟩
          exact ⟨f', ⟨hf', by simpa using hne⟩, rfl⟩
      · rintro q s hne ⟨owned, howned, id, heq⟩
        refine ⟨owned, List.mem_filter.2 ⟨howned, ?_⟩, id, heq⟩
        obtain ⟨f', hf', hid, hpath'⟩ := hc.owned owned howned
        rw [heq] at hpath'
        simp only [ne_eq, decide_eq_true_eq]
        intro hfile
        rw [hc.file_eq_of_id hf' hmem (hid.trans hfile), hpath] at hpath'
        exact hne hpath'.symm

end CodeAtlas.Catalog
