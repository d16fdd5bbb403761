import CodeAtlas.Proofs.Catalog.Ownership
import Mathlib.Data.Finmap
import Mathlib.Data.Finset.Sort
import Mathlib.Data.List.Induction
import Mathlib.Data.String.Basic
/-!
# The catalog as a map from paths

A `Shelf` keeps for every path a dossier: the record of the file, and its symbols in the order in which they were given last. It
knows no rows and no join through ids. `Represents` ties a catalog to the shelf with the same files and the same
symbols for each path; every operation keeps it and replies alike (`Represents.perform`), so that it holds after any
operations (`represents_performed`).
-/

namespace CodeAtlas

/-- The record of a file, and its symbols in the order in which they were given. -/
structure Dossier where
  file : FileRecord
  symbols : List Symbol := []

/-- Dossiers by path, and the ids to be given next. -/
structure Shelf where
  dossiers : Finmap fun _ : String => Dossier := ∅
  nextFile : Int := 1
  nextSymbol : Int := 1

namespace Shelf

def dossier? (m : Shelf) (path : String) : Option Dossier := m.dossiers.lookup path

/-- The paths in order. -/
def paths (m : Shelf) : List String := m.dossiers.keys.sort (· ≤ ·)

/-- The dossier of the file with an id. -/
def withId? (m : Shelf) (id : Int) : Option Dossier := (m.paths.filterMap m.dossier?).find? (·.file.id = id)

/-- Symbols as they are kept for a path: numbered from a given id on. -/
def labelled (path : String) (first : Int) (symbols : List Symbol) : List Symbol :=
  symbols.mapIdx fun i s => { s with id := some (first + i), path := path }

/-- The dossier of a file that is entered: a known path keeps its id and its symbols. -/
def renewed (m : Shelf) (e : FileEntry) : Dossier :=
  match m.dossier? e.path with
  | some old => { old with file := e.stored old.file.id }
  | none => { file := e.stored m.nextFile }

/-- Enters a file and gives its id. -/
def enter (m : Shelf) (e : FileEntry) : Shelf × Int :=
  ({ m with dossiers := m.dossiers.insert e.path (m.renewed e), nextFile := m.nextFile + 1 }, (m.renewed e).file.id)

/-- Replaces the symbols of the file with an id. -/
def replace (m : Shelf) (id : Int) (symbols : List Symbol) : Outcome Shelf :=
  match m.withId? id with
  | some d =>
    .ok { m with
          dossiers := m.dossiers.insert d.file.path { d with symbols := labelled d.file.path m.nextSymbol symbols }
          nextSymbol := m.nextSymbol + symbols.length }
  | none => if symbols.isEmpty then .ok m else .error (.storage .danglingReference)

/-- Removes a file; says whether it was there. -/
def remove (m : Shelf) (path : String) : Shelf × Bool :=
  ({ m with dossiers := m.dossiers.erase path }, (m.dossier? path).isSome)

/-- Removes everything; ids go on where they were. -/
def clear (m : Shelf) : Shelf := { m with dossiers := ∅ }

/-! ## Answers -/

def file? (m : Shelf) (path : String) : Option FileRecord := (m.dossier? path).map (·.file)

/-- The symbols of a file in the order in which they were given. -/
def symbolsOf (m : Shelf) (path : String) : List Symbol := ((m.dossier? path).map (·.symbols)).getD []

/-- The files by path. -/
def listFiles (m : Shelf) : List FileRecord := m.paths.filterMap m.file?

def fingerprints (m : Shelf) : List (String × String) :=
  m.paths.filterMap fun path => (m.file? path).map fun f => (path, f.fingerprint)

/-- The symbols of a file by line; those of one line stay in the order in which they were given. -/
def symbolsIn (m : Shelf) (path : String) : List Symbol :=
  (m.symbolsOf path).mergeSort fun a b => a.startLine ≤ b.startLine

/-- The symbols with a name, and of a kind if one is asked for: those of each path in turn, by line. -/
def findSymbols (m : Shelf) (name : String) (kind : Option SymbolKind) : List Symbol :=
  m.paths.flatMap fun path =>
    ((m.symbolsOf path).filter fun s => s.name = name && kind.all (· = s.kind)).mergeSort fun a b => a.startLine ≤ b.startLine

theorem mem_paths {m : Shelf} {path : String} : path ∈ m.paths ↔ ∃ d, m.dossier? path = some d := by
  rw [paths, Finset.mem_sort, Finmap.mem_keys, Finmap.mem_iff]
  rfl

end Shelf

/-! ## Operations -/

namespace Catalog

/-- What is done to a catalog. -/
inductive Operation where
  | enter (e : FileEntry)
  | replace (id : Int) (symbols : List Symbol)
  | remove (path : String)
  | clear

/-- What an operation answers. -/
inductive Reply where
  | entered (id : Int)
  | replaced (count : Nat)
  | removed (known : Bool)
  | cleared
  | refused (e : Error)

/-- An operation on the catalog. One that is refused changes nothing. -/
def perform (c : Catalog) : Operation → Catalog × Reply
  | .enter e => ((c.upsertFile e).1, .entered (c.upsertFile e).2)
  | .replace id symbols =>
    match c.replaceSymbols id symbols with
    | .ok after => (after, .replaced symbols.length)
    | .error e => (c, .refused e)
  | .remove path => ((c.removeFile path).1, .removed (c.removeFile path).2)
  | .clear => (c.clear, .cleared)

/-- The catalog after operations on an empty one. -/
def performed (operations : List Operation) : Catalog := operations.foldl (fun c op => (c.perform op).1) {}

end Catalog

namespace Shelf

open Catalog (Operation Reply)

/-- The same operation on a shelf. -/
def perform (m : Shelf) : Operation → Shelf × Reply
  | .enter e => ((m.enter e).1, .entered (m.enter e).2)
  | .replace id symbols =>
    match m.replace id symbols with
    | .ok after => (after, .replaced symbols.length)
    | .error e => (m, .refused e)
  | .remove path => ((m.remove path).1, .removed (m.remove path).2)
  | .clear => (m.clear, .cleared)

/-- The shelf after operations on an empty one. -/
def performed (operations : List Operation) : Shelf := operations.foldl (fun m op => (m.perform op).1) {}

end Shelf

/-! ## Rows of one path -/

namespace Catalog

/-- The symbols of a path in the order of their ids. -/
def symbolsOf (c : Catalog) (path : String) : List Symbol := (c.symbols.map (·.symbol)).filter (·.path = path)

theorem symbolsOf_eq (c : Catalog) (path : String) :
    c.symbolsOf path = (c.symbols.filter (·.symbol.path = path)).map (·.symbol) := by
  rw [symbolsOf, List.filter_map]
  rfl

variable {c : Catalog} {path : String} {f : FileRecord}

theorem symbolsOf_eq_nil (hc : c.WellFormed) (h : ¬ c.Indexed path) : c.symbolsOf path = [] := by
  rw [symbolsOf_eq, List.map_eq_nil_iff, List.filter_eq_nil_iff]
  intro owned howned hpath
  obtain ⟨f, hf, -, hsame⟩ := hc.owned owned howned
  exact h ⟨f, hf, hsame.trans (of_decide_eq_true hpath)⟩

/-- Without the rows of a file, its path has no symbols and every other path has its own. -/
theorem symbolsOf_others (hc : c.WellFormed) (hf : f ∈ c.files) (path : String) :
    ((c.symbols.filter (·.file ≠ f.id)).map (·.symbol)).filter (·.path = path) =
      if path = f.path then [] else c.symbolsOf path := by
  have howner : ∀ owned ∈ c.symbols, owned.symbol.path = path → (owned.file = f.id ↔ path = f.path) := by
    intro owned howned hpath
    obtain ⟨g, hg, hid, hsame⟩ := hc.owned owned howned
    constructor
    · intro hfile
      rw [← hpath, ← hsame, hc.file_eq_of_id hg hf (hid.trans hfile)]
    · intro heq
      rw [← hid, hc.file_eq_of_path hg hf (hsame.trans (hpath.trans heq))]
  rw [List.filter_map, List.filter_filter]
  split
  · next heq =>
      rw [List.map_eq_nil_iff, List.filter_eq_nil_iff]
      intro owned howned hboth
      simp only [Function.comp_apply, ne_eq, decide_not, Bool.and_eq_true, decide_eq_true_eq, Bool.not_eq_true',
        decide_eq_false_iff_not] at hboth
      exact hboth.2 ((howner owned howned hboth.1).2 heq)
  · next hne =>
      rw [symbolsOf_eq]
      refine congrArg (List.map _) (List.filter_congr ?_)
      intro owned howned
      by_cases hpath : owned.symbol.path = path
      · have hother : owned.file ≠ f.id := fun hfile => hne ((howner owned howned hpath).1 hfile)
        simp [hpath, hother]
      · simp [hpath]

theorem map_number (f : FileRecord) (id : Int) (symbols : List Symbol) :
    (number f id symbols).map (·.symbol) = Shelf.labelled f.path id symbols := by
  induction symbols generalizing id with
  | nil => rfl
  | cons s rest ih =>
      have hfirst : id + ((0 : Nat) : Int) = id := by omega
      have hshift : ∀ i : Nat, id + ((i + 1 : Nat) : Int) = id + 1 + (i : Int) := by
        intro i
        omega
      rw [number, List.map_cons, ih, Shelf.labelled, Shelf.labelled, List.mapIdx_cons]
      simp only [hfirst, hshift]

theorem filter_labelled (p : String) (first : Int) (symbols : List Symbol) :
    (Shelf.labelled p first symbols).filter (·.path = path) = if path = p then Shelf.labelled p first symbols else [] := by
  have hpath : ∀ s ∈ Shelf.labelled p first symbols, s.path = p := by
    intro s hs
    obtain ⟨i, hi, rfl⟩ := List.mem_mapIdx.1 hs
    rfl
  split
  · next heq =>
      rw [List.filter_eq_self]
      intro s hs
      exact decide_eq_true ((hpath s hs).trans heq.symm)
  · next hne =>
      rw [List.filter_eq_nil_iff]
      intro s hs hsame
      exact hne ((of_decide_eq_true hsame).symm.trans (hpath s hs))

theorem file?_upsertFile (hc : c.WellFormed) (e : FileEntry) (path : String) :
    (c.upsertFile e).1.file? path = if path = e.path then some (e.stored (c.upsertFile e).2) else c.file? path := by
  ext f
  rw [file?_eq_some_iff (hc.upsertFile e), mem_upsertFile hc]
  split
  · next heq =>
      rw [Option.some.injEq]
      constructor
      · rintro ⟨rfl | ⟨-, hne⟩, hpath⟩
        · rfl
        · exact absurd (hpath.trans heq) hne
      · rintro rfl
        exact ⟨Or.inl rfl, heq.symm⟩
  · next hne =>
      rw [file?_eq_some_iff hc]
      constructor
      · rintro ⟨rfl | ⟨hf, -⟩, hpath⟩
        · exact absurd hpath.symm hne
        · exact ⟨hf, hpath⟩
      · rintro ⟨hf, rfl⟩
        exact ⟨Or.inr ⟨hf, hne⟩, rfl⟩

theorem upsertFile_snd (c : Catalog) (e : FileEntry) :
    (c.upsertFile e).2 = ((c.file? e.path).map (·.id)).getD c.nextFile := by
  unfold upsertFile
  split <;> simp [*]

@[simp] theorem upsertFile_nextFile (c : Catalog) (e : FileEntry) : (c.upsertFile e).1.nextFile = c.nextFile + 1 := by
  unfold upsertFile
  split <;> rfl

@[simp] theorem upsertFile_nextSymbol (c : Catalog) (e : FileEntry) : (c.upsertFile e).1.nextSymbol = c.nextSymbol := by
  unfold upsertFile
  split <;> rfl

theorem file?_removeFile (hc : c.WellFormed) (p : String) :
    (c.removeFile p).1.file? path = if path = p then none else c.file? path := by
  ext f
  rw [file?_eq_some_iff (removeFile_spec hc p).1]
  unfold removeFile
  cases hp : c.file? p with
  | none =>
      dsimp only
      rw [← file?_eq_some_iff hc]
      split
      · next heq => rw [heq, hp]
      · rfl
  | some old =>
      simp only [List.mem_filter, ne_eq, decide_not, Bool.not_eq_true', decide_eq_false_iff_not]
      split
      · next heq =>
          refine iff_of_false ?_ (by simp)
          rintro ⟨⟨-, hne⟩, hpath⟩
          exact hne (hpath.trans heq)
      · next hne =>
          rw [file?_eq_some_iff hc]
          constructor
          · rintro ⟨⟨hf, -⟩, hpath⟩
            exact ⟨hf, hpath⟩
          · rintro ⟨hf, rfl⟩
            exact ⟨⟨hf, hne⟩, rfl⟩

theorem symbolsOf_removeFile (hc : c.WellFormed) (p : String) :
    (c.removeFile p).1.symbolsOf path = if path = p then [] else c.symbolsOf path := by
  unfold removeFile
  cases hp : c.file? p with
  | none =>
      dsimp only
      split
      · next heq => exact symbolsOf_eq_nil hc (heq ▸ file?_eq_none hp)
      · rfl
  | some old =>
      obtain ⟨hmem, rfl⟩ := file?_eq_some hp
      exact symbolsOf_others hc hmem path

theorem removeFile_snd (c : Catalog) (p : String) : (c.removeFile p).2 = (c.file? p).isSome := by
  unfold removeFile
  split <;> simp [*]

@[simp] theorem removeFile_nextFile (c : Catalog) (p : String) : (c.removeFile p).1.nextFile = c.nextFile := by
  unfold removeFile
  split <;> rfl

@[simp] theorem removeFile_nextSymbol (c : Catalog) (p : String) : (c.removeFile p).1.nextSymbol = c.nextSymbol := by
  unfold removeFile
  split <;> rfl

end Catalog

/-! ## Both at once -/

/-- A catalog has the files and the symbols of a shelf, path by path. -/
structure Represents (c : Catalog) (m : Shelf) : Prop where
  wellFormed : c.WellFormed
  files : ∀ path, m.file? path = c.file? path
  symbols : ∀ path, m.symbolsOf path = c.symbolsOf path
  nextFile : m.nextFile = c.nextFile
  nextSymbol : m.nextSymbol = c.nextSymbol

namespace Shelf

variable (m : Shelf) {path : String}

theorem renewed_file (e : FileEntry) :
    (m.renewed e).file = e.stored (((m.file? e.path).map (·.id)).getD m.nextFile) := by
  unfold renewed file?
  cases m.dossier? e.path <;> rfl

theorem renewed_symbols (e : FileEntry) : (m.renewed e).symbols = m.symbolsOf e.path := by
  unfold renewed symbolsOf
  cases m.dossier? e.path <;> rfl

/-- One dossier is put in, and the others stay. -/
theorem lookup_insert (p : String) (d : Dossier) (path : String) :
    (m.dossiers.insert p d).lookup path = if path = p then some d else m.dossier? path := by
  split
  · next heq => rw [heq, Finmap.lookup_insert]
  · next hne => exact Finmap.lookup_insert_of_ne _ hne

theorem mem_dossiers {d : Dossier} : d ∈ m.paths.filterMap m.dossier? ↔ ∃ path, m.dossier? path = some d := by
  rw [List.mem_filterMap]
  constructor
  · rintro ⟨path, -, hd⟩
    exact ⟨path, hd⟩
  · rintro ⟨path, hd⟩
    exact ⟨path, mem_paths.2 ⟨d, hd⟩, hd⟩

end Shelf

namespace Represents

variable {c : Catalog} {m : Shelf} (h : Represents c m)

include h

theorem mem_files {path : String} {d : Dossier} (hd : m.dossier? path = some d) : d.file ∈ c.files ∧ d.file.path = path := by
  apply Catalog.file?_eq_some
  rw [← h.files, Shelf.file?, hd]
  rfl

theorem withId?_eq_some_iff {id : Int} {d : Dossier} :
    m.withId? id = some d ↔ m.dossier? d.file.path = some d ∧ d.file.id = id := by
  have hunique : ∀ a ∈ m.paths.filterMap m.dossier?, ∀ b ∈ m.paths.filterMap m.dossier?, decide (a.file.id = id) = true →
      decide (b.file.id = id) = true → a = b := by
    intro a ha b hb hida hidb
    obtain ⟨p, ha⟩ := (m.mem_dossiers).1 ha
    obtain ⟨q, hb⟩ := (m.mem_dossiers).1 hb
    obtain ⟨hamem, rfl⟩ := h.mem_files ha
    obtain ⟨hbmem, rfl⟩ := h.mem_files hb
    have hfile := h.wellFormed.file_eq_of_id hamem hbmem ((of_decide_eq_true hida).trans (of_decide_eq_true hidb).symm)
    rw [hfile, hb] at ha
    exact (Option.some.inj ha).symm
  rw [Shelf.withId?, find?_eq_some_of_unique hunique, Shelf.mem_dossiers, decide_eq_true_eq]
  constructor
  · rintro ⟨⟨path, hd⟩, hid⟩
    rw [(h.mem_files hd).2]
    exact ⟨hd, hid⟩
  · exact fun ⟨hd, hid⟩ => ⟨⟨_, hd⟩, hid⟩

theorem enter (e : FileEntry) : Represents (c.upsertFile e).1 (m.enter e).1 ∧ (m.enter e).2 = (c.upsertFile e).2 := by
  have hid : (m.renewed e).file = e.stored (c.upsertFile e).2 := by
    rw [m.renewed_file, h.files, h.nextFile, Catalog.upsertFile_snd]
  have hlookup : ∀ path, (m.enter e).1.dossier? path = if path = e.path then some (m.renewed e) else m.dossier? path :=
    m.lookup_insert e.path (m.renewed e)
  refine ⟨⟨h.wellFormed.upsertFile e, ?_, ?_, ?_, ?_⟩, congrArg FileRecord.id hid⟩
  · intro path
    rw [Catalog.file?_upsertFile h.wellFormed, Shelf.file?, hlookup]
    split
    · rw [← hid]
      rfl
    · exact h.files path
  · intro path
    have hsame : (c.upsertFile e).1.symbolsOf path = c.symbolsOf path := by
      rw [Catalog.symbolsOf, Catalog.upsertFile_symbols, Catalog.symbolsOf]
    rw [hsame, Shelf.symbolsOf, hlookup, ← h.symbols]
    split
    · next heq =>
        rw [heq, ← m.renewed_symbols]
        rfl
    · rfl
  · rw [Catalog.upsertFile_nextFile, ← h.nextFile]
    rfl
  · rw [Catalog.upsertFile_nextSymbol, ← h.nextSymbol]
    rfl

/-- The symbols of a known file are replaced on both sides. -/
theorem replace_of_withId? {id : Int} {d : Dossier} (hd : m.withId? id = some d) (symbols : List Symbol) :
    ∃ c' m', c.replaceSymbols id symbols = .ok c' ∧ m.replace id symbols = .ok m' ∧ Represents c' m' := by
  obtain ⟨hlookup, rfl⟩ := h.withId?_eq_some_iff.1 hd
  obtain ⟨hmem, -⟩ := h.mem_files hlookup
  have hreplace := Catalog.replaceSymbols_eq h.wellFormed hmem symbols
  refine ⟨_, _, hreplace, by rw [Shelf.replace, hd], ?_⟩
  obtain ⟨hwell, -⟩ := Catalog.replaceSymbols_spec h.wellFormed hmem hreplace
  refine ⟨hwell, ?_, ?_, h.nextFile, by rw [h.nextSymbol]⟩
  · intro path
    rw [Shelf.file?, Shelf.dossier?, m.lookup_insert]
    split
    · next heq =>
        rw [heq]
        exact ((Catalog.file?_eq_some_iff h.wellFormed).2 ⟨hmem, rfl⟩).symm
    · exact h.files path
  · intro path
    rw [Shelf.symbolsOf, Shelf.dossier?, m.lookup_insert, Catalog.symbolsOf, List.map_append, List.filter_append,
      Catalog.symbolsOf_others h.wellFormed hmem, Catalog.map_number, Catalog.filter_labelled, h.nextSymbol]
    split
    · rfl
    · rw [List.append_nil]
      exact h.symbols path

/-- The symbols of an unknown file are refused on both sides, unless there are none. -/
theorem replace_of_withId?_eq_none {id : Int} (hnone : m.withId? id = none) (symbols : List Symbol) :
    (c.replaceSymbols id symbols = if symbols.isEmpty then .ok c else .error (.storage .danglingReference)) ∧
      m.replace id symbols = if symbols.isEmpty then .ok m else .error (.storage .danglingReference) := by
  have hunknown : ∀ f ∈ c.files, f.id ≠ id := by
    intro f hf hid
    have hfile := (Catalog.file?_eq_some_iff h.wellFormed).2 ⟨hf, rfl⟩
    rw [← h.files] at hfile
    obtain ⟨d, hd, rfl⟩ := Option.map_eq_some_iff.1 hfile
    rw [h.withId?_eq_some_iff.2 ⟨hd, hid⟩] at hnone
    cases hnone
  have hfind : c.fileById? id = none := List.find?_eq_none.2 fun f hf => by simpa using hunknown f hf
  have hothers : c.symbols.filter (·.file ≠ id) = c.symbols := by
    rw [List.filter_eq_self]
    intro owned howned
    obtain ⟨f, hf, hid, -⟩ := h.wellFormed.owned owned howned
    simpa [← hid] using hunknown f hf
  constructor
  · simp only [Catalog.replaceSymbols, hfind, hothers]
  · simp only [Shelf.replace, hnone]

theorem remove (path : String) :
    Represents (c.removeFile path).1 (m.remove path).1 ∧ (m.remove path).2 = (c.removeFile path).2 := by
  have hlookup : ∀ q, (m.remove path).1.dossier? q = if q = path then none else m.dossier? q := by
    intro q
    split
    · next heq =>
        rw [heq]
        exact Finmap.lookup_erase _ _
    · next hne => exact Finmap.lookup_erase_ne hne
  refine ⟨⟨(Catalog.removeFile_spec h.wellFormed path).1, ?_, ?_, ?_, ?_⟩, ?_⟩
  · intro q
    rw [Catalog.file?_removeFile h.wellFormed, Shelf.file?, hlookup]
    split
    · rfl
    · exact h.files q
  · intro q
    rw [Catalog.symbolsOf_removeFile h.wellFormed, Shelf.symbolsOf, hlookup]
    split
    · rfl
    · exact h.symbols q
  · rw [Catalog.removeFile_nextFile, ← h.nextFile]
    rfl
  · rw [Catalog.removeFile_nextSymbol, ← h.nextSymbol]
    rfl
  · rw [Catalog.removeFile_snd, ← h.files, Shelf.file?, Option.isSome_map]
    rfl

theorem clear : Represents c.clear m.clear := by
  refine ⟨Catalog.WellFormed.clear, fun _ => rfl, fun _ => rfl, h.nextFile, h.nextSymbol⟩

/-- An operation keeps a catalog and a shelf together, and both reply alike. -/
theorem perform (op : Catalog.Operation) :
    Represents (c.perform op).1 (m.perform op).1 ∧ (m.perform op).2 = (c.perform op).2 := by
  cases op with
  | enter e =>
      obtain ⟨hafter, hid⟩ := h.enter e
      exact ⟨hafter, congrArg Catalog.Reply.entered hid⟩
  | replace id symbols =>
      rw [Catalog.perform, Shelf.perform]
      cases hd : m.withId? id with
      | some d =>
          obtain ⟨c', m', hc', hm', hafter⟩ := h.replace_of_withId? hd symbols
          rw [hc', hm']
          exact ⟨hafter, rfl⟩
      | none =>
          obtain ⟨hc', hm'⟩ := h.replace_of_withId?_eq_none hd symbols
          rw [hc', hm']
          cases symbols.isEmpty with
          | true => exact ⟨h, rfl⟩
          | false => exact ⟨h, rfl⟩
  | remove path =>
      obtain ⟨hafter, hknown⟩ := h.remove path
      exact ⟨hafter, congrArg Catalog.Reply.removed hknown⟩
  | clear => exact ⟨h.clear, rfl⟩

end Represents

theorem Catalog.performed_append (operations : List Catalog.Operation) (op : Catalog.Operation) :
    performed (operations ++ [op]) = ((performed operations).perform op).1 := by
  rw [performed, List.foldl_append]
  rfl

/-- After any operations a catalog has what the shelf has. -/
theorem represents_performed (operations : List Catalog.Operation) :
    Represents (Catalog.performed operations) (Shelf.performed operations) := by
  induction operations using List.reverseRecOn with
  | nil => exact ⟨Catalog.wellFormed_empty, fun _ => rfl, fun _ => rfl, rfl, rfl⟩
  | append_singleton operations op ih =>
      rw [Catalog.performed_append, Shelf.performed, List.foldl_append]
      exact (ih.perform op).1

end CodeAtlas
