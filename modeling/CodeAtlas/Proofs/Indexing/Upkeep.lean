import CodeAtlas.Proofs.Indexing.Leftovers
import CodeAtlas.Proofs.Projection.Mirroring
/-!
# What runs keep up

A run changes the index by units and by notes. So a property of indexes holds after any runs as soon as each unit keeps
it and it says nothing of the notes (`Kept.served`). One such property is that the graph mirrors the stored schema:
whatever becomes of the schema file, the nodes of tables, columns and indexes are those of the schema that is stored
(`schema_keys_eq`).
-/

namespace CodeAtlas

/-- The keys of the nodes of a kind. -/
def Graph.keysOf (g : Graph) (kind : NodeKind) : List String := (g.nodes.filter (·.kind = kind)).map (·.key)

theorem Graph.mem_keysOf {g : Graph} {kind : NodeKind} {key : String} : key ∈ g.keysOf kind ↔ g.Has (kind, key) := by
  simp only [keysOf, List.mem_map, List.mem_filter, decide_eq_true_eq]
  constructor
  · rintro ⟨n, ⟨hn, rfl⟩, rfl⟩
    exact ⟨n.id, Graph.names_of_mem hn⟩
  · rintro ⟨_, n, hn, _, hi⟩
    exact ⟨n, ⟨hn, congrArg Prod.fst hi⟩, congrArg Prod.snd hi⟩

namespace Indexing

open Projection

/-- The units of the schema keep the property, and notes are beside the point. -/
structure KeptBySchema (P : Store → Prop) : Prop where
  notes : ∀ (s : Store) (notes : List (String × String)), P s → P { s with notes := notes }
  commitSchema : ∀ d : Desk, d.Sound → P d.store → ∀ print s, P (commitSchema d print s).1.store
  removeSchema : ∀ d : Desk, d.Sound → P d.store → P (removeSchema d).1.store

/-- The property holds of a cleared index, every unit keeps it, and notes are beside the point. -/
structure Kept (P : Store → Prop) : Prop extends KeptBySchema P where
  clear : ∀ s : Store, P s.clear
  commitFile : ∀ d : Desk, d.Sound → P d.store → ∀ now file o, P (commitFile now d file o).1.store
  removeFile : ∀ d : Desk, d.Sound → P d.store → ∀ path, P (removeFile d path).1.store

variable {P : Store → Prop}

namespace KeptBySchema

theorem dropSchema (h : KeptBySchema P) {d : Desk} (hd : d.Sound) (hP : P d.store) (summary : SchemaSummary) :
    P (dropSchema d summary).1.store := by
  unfold Indexing.dropSchema
  split
  · exact h.notes d.store _ hP
  · have hremove := h.removeSchema d hd hP
    split
    · next heq => rw [heq] at hremove; exact hremove
    · next heq => rw [heq] at hremove; exact hremove

theorem rebuildSchema (h : KeptBySchema P) {d : Desk} (hd : d.Sound) (hP : P d.store) (path : String)
    (file : SourceFile) (force : Bool) : P (rebuildSchema d path file force).1.store := by
  unfold Indexing.rebuildSchema
  dsimp only
  split
  · exact hP
  · split
    · exact h.notes d.store _ hP
    · have hcommit := h.commitSchema d hd hP (fingerprint file.bytes) (Schema.ofSource file.text)
      split
      · next heq => rw [heq] at hcommit; exact hcommit
      · next heq => rw [heq] at hcommit; exact h.notes _ _ hcommit

theorem refreshSchema (h : KeptBySchema P) {d : Desk} (hd : d.Sound) (hP : P d.store) (t : Tree) (path : String)
    (force : Bool) : P (refreshSchema t d path force).1.store := by
  unfold Indexing.refreshSchema
  dsimp only
  split
  · exact h.dropSchema hd hP _
  · exact h.rebuildSchema hd hP _ _ force

theorem finish (h : KeptBySchema P) {r : Run} (hr : r.desk.Sound) (hP : P r.desk.store) (t : Tree)
    (options : IndexOptions) (now : Int) (force : Bool) : P (finish t options now force r).desk.store := by
  unfold Indexing.finish
  dsimp only [Run.tell]
  cases options.schema with
  | none => exact h.notes _ _ hP
  | some path => exact h.notes _ _ (h.refreshSchema hr hP t path _)

end KeptBySchema

namespace Kept

theorem commitExtracted (h : Kept P) {r : Run} (hr : r.desk.Sound) (hP : P r.desk.store) (now : Int)
    (file : PendingFile) (extracted : Outcome Outline) : P (commitExtracted now r file extracted).desk.store := by
  unfold Indexing.commitExtracted
  cases extracted with
  | error e => exact hP
  | ok o =>
      have hcommit := h.commitFile r.desk hr hP now file o
      dsimp only
      split <;> exact hcommit

theorem commitAll (h : Kept P) {r : Run} (hr : r.desk.Sound) (hP : P r.desk.store) (now : Int)
    (extracted : List (PendingFile × Outcome Outline)) : P (commitAll now r extracted).desk.store := by
  induction extracted generalizing r with
  | nil => exact hP
  | cons x rest ih => exact ih (sound_commitExtracted hr now x.1 x.2) (h.commitExtracted hr hP now x.1 x.2)

theorem removeGone (h : Kept P) {r : Run} (hr : r.desk.Sound) (hP : P r.desk.store) (path : String) :
    P (removeGone r path).desk.store := by
  have hremove := h.removeFile r.desk hr hP path
  unfold Indexing.removeGone
  split
  · next heq => rw [heq] at hremove; exact hremove
  · next heq => rw [heq] at hremove; exact hremove

theorem removeAll (h : Kept P) {r : Run} (hr : r.desk.Sound) (hP : P r.desk.store) (gone : List String) :
    P (gone.foldl Indexing.removeGone r).desk.store := by
  induction gone generalizing r with
  | nil => exact hP
  | cons path rest ih => exact ih (sound_removeGone hr path) (h.removeGone hr hP path)

theorem execute (h : Kept P) {s : Store} (hs : Standing s) (hP : P s) (t : Tree) (options : IndexOptions) (now : Int)
    (force full : Bool) (plan : Plan) : P (execute t options now force full s plan).desk.store := by
  unfold Indexing.execute
  dsimp only
  generalize (readFiles t s.catalog.fingerprint? force plan.targets plan.report).1.map
    (fun file => (file, options.extractor.extract t (inputOf t file))) = extracted
  generalize hstart : Run.tell _ _ = r
  have hr : r.desk = { store := s } := by rw [← hstart]; rfl
  have hsound : r.desk.Sound := by rw [hr]; exact hs
  have hrP : P r.desk.store := by rw [hr]; exact hP
  have hcommitted := sound_commitAll hsound now extracted
  exact h.finish (sound_removeAll hcommitted plan.gone)
    (h.removeAll hcommitted (h.commitAll hsound hrP now extracted) plan.gone) t options now full

theorem serve (h : Kept P) {s : Store} (hs : Standing s) (hP : P s) (request : Request) : P (request.serve s) := by
  cases request with
  | tree t options now mode =>
      have hstart : Standing (if mode = .full then s.clear else s) ∧ P (if mode = .full then s.clear else s) := by
        split
        · exact ⟨standing_clear s, h.clear s⟩
        · exact ⟨hs, hP⟩
      unfold Request.serve run
      dsimp only
      split
      · exact hstart.2
      · exact h.execute hstart.1 hstart.2 t options now _ _ _
  | files t options now paths => exact h.execute hs hP t options now _ _ _

/-- What every unit keeps holds after any runs. -/
theorem served (h : Kept P) (requests : List Request) : P (served requests) := by
  induction requests using List.reverseRecOn with
  | nil => exact h.clear {}
  | append_singleton requests request ih =>
      rw [Indexing.served, List.foldl_append]
      exact h.serve (standing_served requests) ih request

end Kept

/-! ## The stored schema and the graph -/

theorem mirrors_commitFile {d : Desk} (hd : d.Sound) (h : Mirrors d.store.schema d.store.graph) (now : Int)
    (file : PendingFile) (o : Outline) :
    Mirrors (commitFile now d file o).1.store.schema (commitFile now d file o).1.store.graph := by
  obtain ⟨c, hafter, _⟩ := commitFile_eq hd now file o
  rw [hafter]
  exact mirrors_fileUnit (hd.start file.path) c apartFromSchema_fileStatements h

theorem mirrors_removeFile {d : Desk} (hd : d.Sound) (h : Mirrors d.store.schema d.store.graph) (path : String) :
    Mirrors (removeFile d path).1.store.schema (removeFile d path).1.store.graph := by
  have hsettle := Desk.settle_run hd.session
    (fun graph => { d.store with catalog := (d.store.catalog.removeFile path).1, graph := graph })
    (d.store.catalog.removeFile path).1 (.retract path)
  rw [show (removeFile d path).1 = _ from hsettle]
  exact mirrors_fileUnit (hd.start path) _ apartFromSchema_nil h

/-- The index after the unit of a schema. -/
theorem store_settle {d : Desk} (hd : d.Sound) (next : Graph → Store) (s : Schema) :
    (d.settle next (projectSchema d.store.catalog d.store.graph d.cache s)).1.store =
      next (unit d.store.catalog Schema.origin d.store.graph d.cache (d.store.graph.bySource .fromSchema)
        (schemaStatements s fun c => (d.store.graph.nodeId? .classDecl c).isSome)).graph :=
  congrArg Desk.store (Desk.settle_run hd.session next d.store.catalog (.projectSchema s))

theorem mirrors_settle {d : Desk} (hd : d.Sound) (h : Mirrors d.store.schema d.store.graph) {next : Graph → Store}
    (hgraph : ∀ g, (next g).graph = g) (s : Schema) (hschema : ∀ g, (next g).schema = s.stored) :
    Mirrors (d.settle next (projectSchema d.store.catalog d.store.graph d.cache s)).1.store.schema
      (d.settle next (projectSchema d.store.catalog d.store.graph d.cache s)).1.store.graph := by
  rw [store_settle hd, hschema, hgraph]
  exact mirrors_schemaUnit (hd.start Schema.origin) d.store.catalog hd.session.held h

theorem kept_mirrors : Kept fun s => Mirrors s.schema s.graph where
  clear _ := mirrors_of_empty rfl rfl
  notes _ _ h := h
  commitFile _ hd h now file o := mirrors_commitFile hd h now file o
  removeFile _ hd h path := mirrors_removeFile hd h path
  commitSchema _ hd h _ s := mirrors_settle hd h (fun _ => rfl) s fun _ => rfl
  removeSchema _ hd h := mirrors_settle hd h (fun _ => rfl) {} fun _ => rfl

/-- After any runs the nodes of tables, columns and indexes have the names of the stored tables, of their columns, and
of the stored indexes. -/
theorem schema_keys_eq (requests : List Request) :
    (∀ key, key ∈ (served requests).graph.keysOf .table ↔
      ∃ t ∈ (served requests).schema.tables, t.name = key) ∧
    (∀ key, key ∈ (served requests).graph.keysOf .column ↔
      ∃ t ∈ (served requests).schema.tables, ∃ c ∈ t.columns, t.name ++ "." ++ c.name = key) ∧
    ∀ key, key ∈ (served requests).graph.keysOf .index ↔
      ∃ i ∈ (served requests).schema.indexes, i.name = key := by
  have h := kept_mirrors.served requests
  refine ⟨?_, ?_, ?_⟩
  · intro key
    rw [Graph.mem_keysOf, h.keys _ rfl]
    constructor
    · intro hdescribes
      cases hdescribes with
      | table t mem => exact ⟨t, mem, rfl⟩
    · rintro ⟨t, mem, rfl⟩
      exact .table t mem
  · intro key
    rw [Graph.mem_keysOf, h.keys _ rfl]
    constructor
    · intro hdescribes
      cases hdescribes with
      | column t c mem here => exact ⟨t, mem, c, here, rfl⟩
    · rintro ⟨t, mem, c, here, rfl⟩
      exact .column t c mem here
  · intro key
    rw [Graph.mem_keysOf, h.keys _ rfl]
    constructor
    · intro hdescribes
      cases hdescribes with
      | index i mem => exact ⟨i, mem, rfl⟩
    · rintro ⟨i, mem, rfl⟩
      exact .index i mem

end Indexing

end CodeAtlas
