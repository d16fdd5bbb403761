import CodeAtlas.Proofs.Catalog.Shelf
import CodeAtlas.Proofs.Indexing.Naming
import CodeAtlas.Proofs.Projection.Handover
/-!
# Histories of files

Files are committed and removed in any order. After every history, catalog and graph agree with the files that were
committed last and not removed since (`remembers_deskAfter`): the symbol rows of a file are its declarations, its
`defines` edges give the lines of its last declarations, and its `inherits` edges are the superclasses it states.
-/

namespace CodeAtlas

open Projection

namespace Indexing

/-! ## Events -/

/-- What happens to an index: a file is read and committed, a file is removed, or another run is begun. -/
inductive FileEvent where
  | commit (now : Int) (file : PendingFile)
  | remove (path : String)
  | renew
deriving Inhabited

namespace FileEvent

/-- The file that is concerned. -/
def path? : FileEvent → Option String
  | .commit _ file => some file.path
  | .remove path => some path
  | .renew => none

/-- The desk after an event. -/
def apply (d : Desk) : FileEvent → Desk
  | .commit now file => (commitFile now d file (.ofSource file.text)).1
  | .remove path => (removeFile d path).1
  | .renew => { d with cache := {} }

/-- What is held of a file after an event. -/
def revise (path : String) (held : Option PendingFile) : FileEvent → Option PendingFile
  | .commit _ file => if file.path = path then some file else held
  | .remove p => if p = path then none else held
  | .renew => held

theorem revise_of_ne {event : FileEvent} {path : String} (h : event.path? ≠ some path) (held : Option PendingFile) :
    event.revise path held = held := by
  cases event with
  | commit now file =>
      rw [revise, if_neg]
      rintro rfl
      exact h rfl
  | remove p =>
      rw [revise, if_neg]
      rintro rfl
      exact h rfl
  | renew => rfl

end FileEvent

/-- An index after events, from an empty one. -/
def deskAfter (events : List FileEvent) : Desk := events.foldl FileEvent.apply emptyDesk

/-- The file as it was committed last, unless it was removed since. -/
def lastFile? (events : List FileEvent) (path : String) : Option PendingFile :=
  events.foldl (fun held event => event.revise path held) none

theorem deskAfter_append (events : List FileEvent) (event : FileEvent) :
    deskAfter (events ++ [event]) = event.apply (deskAfter events) := by
  rw [deskAfter, List.foldl_append]
  rfl

theorem lastFile?_append (events : List FileEvent) (event : FileEvent) (path : String) :
    lastFile? (events ++ [event]) path = event.revise path (lastFile? events path) := by
  rw [lastFile?, List.foldl_append]
  rfl

/-- What is held of a file was committed, and nothing has happened to the file since. -/
theorem exists_commit_of_lastFile {events : List FileEvent} {path : String} {file : PendingFile}
    (h : lastFile? events path = some file) :
    ∃ before now after, events = before ++ .commit now file :: after ∧ file.path = path ∧
      ∀ event ∈ after, event.path? ≠ some path := by
  induction events using List.reverseRecOn with
  | nil => exact absurd h (by simp [lastFile?])
  | append_singleton events last ih =>
      rw [lastFile?_append] at h
      by_cases hpath : last.path? = some path
      · cases last with
        | commit now file' =>
            rw [FileEvent.revise, if_pos (Option.some.inj hpath), Option.some.injEq] at h
            subst h
            exact ⟨events, now, [], rfl, Option.some.inj hpath, by simp⟩
        | remove p =>
            rw [FileEvent.revise, if_pos (Option.some.inj hpath)] at h
            exact absurd h (by simp)
        | renew => exact absurd hpath (by simp [FileEvent.path?])
      · rw [FileEvent.revise_of_ne hpath] at h
        obtain ⟨before, now, after, rfl, hfile, hafter⟩ := ih h
        refine ⟨before, now, after ++ [last], by simp, hfile, ?_⟩
        intro event hevent
        rcases List.mem_append.1 hevent with hevent | hevent
        · exact hafter event hevent
        · rw [List.mem_singleton.1 hevent]
          exact hpath

/-! ## What an index knows of a file -/

/-- The declarations of a file as they are read. -/
def declarationsOf (file : PendingFile) : List Declaration := (Outline.ofSource file.text).declarations

/-- A symbol row without its id. -/
def unnumbered (s : Symbol) : Symbol := { s with id := none }

/-- Catalog and graph are as the files `S` say: each symbol row of a file is one of its declarations, each `defines`
edge of a file gives the line of its last declaration, and the superclasses that a file states are those of its
declarations. -/
structure Remembers (S : String → Option PendingFile) (d : Desk) : Prop where
  sound : d.Sound
  rows : ∀ path file, S path = some file →
    (d.store.catalog.symbolsOf path).map unnumbered = (declarationsOf file).map (symbolOf path)
  lines : ∀ e ∈ d.store.graph.edges, ∀ path i, d.store.graph.Joins e ⟨.defines, (.file, path), i⟩ →
    ∃ file x, S path = some file ∧ lastDeclaration? i (declarationsOf file) = some x ∧
      e.locations = [locationOf path x]
  inherits : ∀ path i j, d.store.graph.Holds ⟨.inherits, i, j⟩ path ↔
    ∃ file, S path = some file ∧ Inherits (.ofSource file.text) i j

/-- The statements of a file that holds `v`. -/
structure SaysText (path : String) (v : Option PendingFile) (statements : List Statement) : Prop where
  nodes : ∀ n, Statement.declare n ∈ statements → n.DefinedIn path
  declared : ∀ n, Statement.declare n ∈ statements → n.kind = .file ∨
    ∃ file, v = some file ∧ ∃ x ∈ declarationsOf file, ∃ i, nodeOf? x = some i ∧ n = declarationNode path x i
  own : ∀ q i, Relates statements ⟨.defines, (.file, q), i⟩ → q = path
  lines : ∀ i locations metadata, lastRelated? statements ⟨.defines, (.file, path), i⟩ = some (locations, metadata) →
    ∃ file x, v = some file ∧ lastDeclaration? i (declarationsOf file) = some x ∧ locations = [locationOf path x]
  inherits : ∀ i j, Relates statements ⟨.inherits, i, j⟩ ↔ ∃ file, v = some file ∧ Inherits (.ofSource file.text) i j

theorem lastRelated?_fileChange (file : PendingFile) (o : Outline) (s : Session) (i : Identity) :
    lastRelated? ((fileChange file o).statements s) ⟨.defines, (.file, file.path), i⟩ =
      (lastDeclaration? i o.declarations).map fun x => ([locationOf file.path x], .obj []) :=
  lastRelated?_defines

theorem relates_inherits_fileChange (file : PendingFile) (o : Outline) (s : Session) (i j : Identity) :
    Relates ((fileChange file o).statements s) ⟨.inherits, i, j⟩ ↔ Inherits o i j :=
  relates_inherits_iff

theorem declared_fileChange {file : PendingFile} {o : Outline} {s : Session} {n : NewNode}
    (h : Statement.declare n ∈ (fileChange file o).statements s) :
    n.kind = .file ∨ ∃ x ∈ o.declarations, ∃ i, nodeOf? x = some i ∧ n = declarationNode file.path x i := by
  cases declare_mem_fileStatements.1 h with
  | file => exact Or.inl rfl
  | declaration x i mem node => exact Or.inr ⟨x, mem, i, node, rfl⟩

theorem saysText_commit (file : PendingFile) (s : Session) :
    SaysText file.path (some file) ((fileChange file (.ofSource file.text)).statements s) := by
  refine ⟨?_, ?_, ?_, ?_, ?_⟩
  · intro n hn
    exact (declare_mem_fileStatements.1 hn).definedIn
  · intro n hn
    exact (declared_fileChange hn).imp_right fun hdeclared => ⟨file, rfl, hdeclared⟩
  · rintro q i ⟨locations, metadata, hmem⟩
    exact (fileLink_defines (fileLink_of_mem hmem) rfl).1
  · intro i locations metadata hlast
    rw [lastRelated?_fileChange, Option.map_eq_some_iff] at hlast
    obtain ⟨x, hx, heq⟩ := hlast
    exact ⟨file, x, rfl, hx, (congrArg Prod.fst heq).symm⟩
  · intro i j
    rw [relates_inherits_fileChange]
    simp only [Option.some.injEq, exists_eq_left']

theorem saysText_remove (path : String) : SaysText path none [] := by
  refine ⟨fun n hn => absurd hn (by simp), fun n hn => absurd hn (by simp), ?_, ?_, ?_⟩
  · rintro q i ⟨_, _, h⟩
    exact absurd h (by simp)
  · intro i locations metadata h
    exact absurd h (by simp [lastRelated?])
  · intro i j
    simp [Relates]

section

variable {S S' : String → Option PendingFile} {d : Desk} {path : String} {statements : List Statement} {c : Catalog}

/-- The lines of `defines` edges after the unit of a file. -/
theorem lines_unit (h : Remembers S d) (hwords : SaysText path (S' path) statements)
    (hother : ∀ q, q ≠ path → S' q = S q) {e : Edge}
    (he : e ∈ (unit c path d.store.graph d.cache (d.store.graph.anchoredTo path) statements).graph.edges) {q : String}
    {i : Identity}
    (hjoin : (unit c path d.store.graph d.cache (d.store.graph.anchoredTo path) statements).graph.Joins e
      ⟨.defines, (.file, q), i⟩) :
    ∃ file x, S' q = some file ∧ lastDeclaration? i (declarationsOf file) = some x ∧
      e.locations = [locationOf q x] := by
  have hw := h.sound.start path
  have hp : (d.store.graph.anchoredTo path).Sublist d.store.graph.nodes := List.filter_sublist
  rcases mem_edges_unit hw hp he hjoin with ⟨metadata, hmem⟩ | ⟨hunrelated, e₀, he₀, hjoin₀, hlocations⟩
  · have hrelates : Relates statements ⟨.defines, (.file, q), i⟩ := ⟨_, metadata, hmem⟩
    obtain rfl := hwords.own q i hrelates
    obtain ⟨locations, metadata, hlast⟩ := exists_lastRelated hrelates
    rw [(worded_unit hw hp hlast he hjoin).locations]
    exact hwords.lines i locations metadata hlast
  · -- the edge is held by the file it starts from, which is another one
    have hne : q ≠ path := by
      obtain ⟨x, hx⟩ := allHeld_unit hw hp c statements h.sound.session.held e he
      rcases (holds_unit hw hp c statements _ x).1 ⟨e, he, hjoin, hx⟩ with ⟨hx, hheld⟩ | ⟨_, hrelates⟩
      · rw [← (h.sound.traces.defines q i x hheld).1]
        exact hx
      · exact absurd hrelates hunrelated
    rw [hother q hne, ← hlocations]
    exact h.lines e₀ he₀ q i hjoin₀

/-- The superclasses that files state after the unit of a file. -/
theorem inherits_unit (h : Remembers S d) (hwords : SaysText path (S' path) statements)
    (hother : ∀ q, q ≠ path → S' q = S q) (q : String) (i j : Identity) :
    (unit c path d.store.graph d.cache (d.store.graph.anchoredTo path) statements).graph.Holds ⟨.inherits, i, j⟩ q ↔
      ∃ file, S' q = some file ∧ Inherits (.ofSource file.text) i j := by
  have hp : (d.store.graph.anchoredTo path).Sublist d.store.graph.nodes := List.filter_sublist
  rw [holds_unit (h.sound.start path) hp, h.inherits, hwords.inherits]
  by_cases hq : q = path
  · subst hq
    simp
  · simp [hq, hother q hq]

end

/-! ## Rows of the catalog -/

/-- The symbols after those of a file are replaced. -/
theorem symbolsOf_replaceSymbols {c c' : Catalog} (hc : c.WellFormed) {f : FileRecord} (hf : f ∈ c.files)
    {symbols : List Symbol} (h : c.replaceSymbols f.id symbols = .ok c') (path : String) :
    c'.symbolsOf path =
      if path = f.path then Shelf.labelled f.path c.nextSymbol symbols else c.symbolsOf path := by
  rw [Catalog.replaceSymbols_eq hc hf, Except.ok.injEq] at h
  rw [← h, Catalog.symbolsOf, List.map_append, List.filter_append, Catalog.symbolsOf_others hc hf, Catalog.map_number,
    Catalog.filter_labelled]
  split
  · rw [List.nil_append]
  · rw [List.append_nil]

theorem map_labelled (path : String) (first : Int) (declarations : List Declaration) :
    (Shelf.labelled path first (declarations.map (symbolOf path))).map unnumbered =
      declarations.map (symbolOf path) := by
  refine List.ext_getElem? fun i => ?_
  rw [Shelf.labelled, List.getElem?_map, List.getElem?_mapIdx, List.getElem?_map]
  cases declarations[i]? <;> rfl

/-- The rows of a file that is committed are its declarations, and those of the others stay. -/
theorem rows_commitFile {d : Desk} (hd : d.Sound) (now : Int) (file : PendingFile) (o : Outline) (path : String) :
    ((commitFile now d file o).1.store.catalog.symbolsOf path).map unnumbered =
      if path = file.path then o.declarations.map (symbolOf file.path)
      else (d.store.catalog.symbolsOf path).map unnumbered := by
  let entry : FileEntry := {
    path := file.path, fingerprint := file.fingerprint, category := categoryOf file.path o
    lineCount := (completed file o).lineCount.getD 0, modified := file.modified, indexedAt := now }
  obtain ⟨c, hreplace, -⟩ := commit_catalog hd entry (completed file o).declarations
  have hcommit : (commitFile now d file o).1.store.catalog = c := by
    have hspelled := hreplace
    dsimp only [entry] at hspelled
    rw [commitFile]
    simp only [hspelled]
    exact congrArg (·.store.catalog) (Desk.settle_run hd.session
      (fun graph => { d.store with catalog := c, graph := graph }) c (fileChange file o))
  have hentered : entry.stored (d.store.catalog.upsertFile entry).2 ∈ (d.store.catalog.upsertFile entry).1.files :=
    (Catalog.mem_upsertFile hd.catalog entry _).2 (Or.inl rfl)
  have hsame : (d.store.catalog.upsertFile entry).1.symbolsOf path = d.store.catalog.symbolsOf path := by
    rw [Catalog.symbolsOf, Catalog.upsertFile_symbols, Catalog.symbolsOf]
  rw [hcommit, symbolsOf_replaceSymbols (hd.catalog.upsertFile entry) hentered hreplace, hsame]
  change List.map unnumbered (if path = file.path then _ else _) = _
  split
  · exact map_labelled _ _ _
  · rfl

/-! ## After every history -/

theorem sound_renew {d : Desk} (hd : d.Sound) : Desk.Sound { d with cache := {} } :=
  ⟨hd.catalog, ⟨hd.session.graph, BuildCache.valid_empty _, hd.session.held⟩, hd.traces⟩

/-- Removing a file takes it out of the catalog and takes back what it said. -/
theorem removeFile_eq {d : Desk} (hd : d.Sound) (path : String) :
    (removeFile d path).1 =
      Desk.after (fun graph => { d.store with catalog := (d.store.catalog.removeFile path).1, graph := graph })
        (unit (d.store.catalog.removeFile path).1 path d.store.graph d.cache (d.store.graph.anchoredTo path) []) :=
  Desk.settle_run hd.session _ _ (.retract path)

section

variable {d : Desk} {event : FileEvent} {path : String}

theorem sound_apply (hd : d.Sound) (event : FileEvent) : (event.apply d).Sound := by
  cases event with
  | commit now file => exact sound_commitFile hd now file _
  | remove path => exact sound_removeFile hd path
  | renew => exact sound_renew hd

/-- What happens to a file is a unit, in which the file says what is held of it from then on. -/
theorem exists_unit_eq (hd : d.Sound) (hpath : event.path? = some path) (held : Option PendingFile) :
    ∃ c statements, event.apply d =
        Desk.after (fun graph => { d.store with catalog := c, graph := graph })
          (unit c path d.store.graph d.cache (d.store.graph.anchoredTo path) statements) ∧
      SaysText path (event.revise path held) statements := by
  cases event with
  | commit now file =>
      obtain rfl := Option.some.inj hpath
      obtain ⟨c, hafter, -⟩ := commitFile_eq hd now file (.ofSource file.text)
      refine ⟨c, _, hafter, ?_⟩
      rw [FileEvent.revise, if_pos rfl]
      exact saysText_commit file _
  | remove p =>
      obtain rfl := Option.some.inj hpath
      refine ⟨_, [], removeFile_eq hd p, ?_⟩
      rw [FileEvent.revise, if_pos rfl]
      exact saysText_remove p
  | renew => exact absurd hpath (by simp [FileEvent.path?])

/-- The rows of a file stay its declarations. -/
theorem rows_apply {S : String → Option PendingFile} (h : Remembers S d) (event : FileEvent) {file : PendingFile}
    (hfile : event.revise path (S path) = some file) :
    ((event.apply d).store.catalog.symbolsOf path).map unnumbered = (declarationsOf file).map (symbolOf path) := by
  cases event with
  | commit now file' =>
      rw [FileEvent.apply, rows_commitFile h.sound]
      rw [FileEvent.revise] at hfile
      by_cases hpath : file'.path = path
      · subst hpath
        rw [if_pos rfl, Option.some.injEq] at hfile
        rw [if_pos rfl, ← hfile]
        rfl
      · rw [if_neg hpath] at hfile
        rw [if_neg fun heq => hpath heq.symm]
        exact h.rows path file hfile
  | remove p =>
      rw [FileEvent.apply, removeFile_eq h.sound]
      change List.map unnumbered ((d.store.catalog.removeFile p).1.symbolsOf path) = _
      rw [FileEvent.revise] at hfile
      by_cases hpath : p = path
      · rw [if_pos hpath] at hfile
        exact absurd hfile (by simp)
      · rw [if_neg hpath] at hfile
        rw [Catalog.symbolsOf_removeFile h.sound.catalog, if_neg fun heq => hpath heq.symm]
        exact h.rows path file hfile
  | renew => exact h.rows path file hfile

theorem remembers_apply {S : String → Option PendingFile} (h : Remembers S d) (event : FileEvent) :
    Remembers (fun path => event.revise path (S path)) (event.apply d) := by
  cases hpath : event.path? with
  | none =>
      cases event with
      | commit now file => exact absurd hpath (by simp [FileEvent.path?])
      | remove path => exact absurd hpath (by simp [FileEvent.path?])
      | renew => exact ⟨sound_renew h.sound, h.rows, h.lines, h.inherits⟩
  | some path =>
      have hother : ∀ q, q ≠ path → event.revise q (S q) = S q := fun q hq =>
        FileEvent.revise_of_ne (by rw [hpath]; simpa using hq.symm) _
      obtain ⟨c, statements, hafter, hwords⟩ := exists_unit_eq h.sound hpath (S path)
      refine ⟨sound_apply h.sound event, fun q file hfile => rows_apply h event hfile, ?_, ?_⟩
      · rw [hafter]
        exact fun e he q i hjoin => lines_unit h hwords hother he hjoin
      · rw [hafter]
        exact fun q i j => inherits_unit h hwords hother q i j

end

theorem remembers_emptyDesk : Remembers (lastFile? []) emptyDesk := by
  have hnone : ∀ e, e ∉ emptyDesk.store.graph.edges := by simp [emptyDesk, Store.clear, Graph.clear]
  refine ⟨sound_emptyDesk, fun path file h => absurd h (by simp [lastFile?]), fun e he => absurd he (hnone e), ?_⟩
  intro path i j
  constructor
  · rintro ⟨e, he, _⟩
    exact absurd he (hnone e)
  · rintro ⟨file, h, _⟩
    exact absurd h (by simp [lastFile?])

/-- After every history, catalog and graph are as the files that were committed last say. -/
theorem remembers_deskAfter (events : List FileEvent) : Remembers (lastFile? events) (deskAfter events) := by
  induction events using List.reverseRecOn with
  | nil => exact remembers_emptyDesk
  | append_singleton events event ih =>
      rw [deskAfter_append, show lastFile? (events ++ [event]) = _ from funext (lastFile?_append events event)]
      exact remembers_apply ih event

end Indexing

end CodeAtlas
