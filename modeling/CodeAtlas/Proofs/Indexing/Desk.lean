import CodeAtlas.Indexing.Run
import CodeAtlas.Proofs.Catalog.Ownership
import CodeAtlas.Proofs.Projection.History
import CodeAtlas.Proofs.Projection.Tracing
/-!
# Units on an index

Catalog and graph change together: a file that is committed is indexed with the symbols it declares, and one that is
removed is not. So what the graph says of files can be traced to the catalog after every unit (`Desk.Sound`).
-/

namespace CodeAtlas

open Projection

namespace Indexing

/-- A symbol is stored for a file whose declaration gives the node. -/
def StoredDefinition (c : Catalog) (path : String) (i : Identity) : Prop :=
  ∃ d, nodeOf? d = some i ∧ c.Stores path (symbolOf path d)

end Indexing

open Indexing

/-- The catalog is well-formed, the cache is right about the graph, and the graph can be traced to the catalog. -/
structure Desk.Sound (d : Desk) : Prop where
  catalog : d.store.catalog.WellFormed
  session : Session.Sound ⟨d.store.graph, d.cache⟩
  traces : Traces d.store.catalog.Indexed (StoredDefinition d.store.catalog) d.store.graph

namespace Desk

theorem Sound.start {d : Desk} (h : d.Sound) (o : String) : (start o d.store.graph d.cache).Sound :=
  ⟨h.session.graph, h.session.cache⟩

/-- The desk after a unit that succeeded. -/
def after (next : Graph → Store) (w : Work) : Desk := ⟨next w.graph, w.cache.commit⟩

/-- A unit on the desk carries out what it says. -/
theorem settle_run {d : Desk} (hs : Session.Sound ⟨d.store.graph, d.cache⟩) (next : Graph → Store) (c : Catalog)
    (change : Change) :
    (d.settle next (change.run c ⟨d.store.graph, d.cache⟩)).1 =
      after next (unit c change.origin d.store.graph d.cache (change.previous d.store.graph)
        (change.statements ⟨d.store.graph, d.cache⟩)) := by
  rw [run_eq hs]
  rfl

theorem session_after {d : Desk} (hs : Session.Sound ⟨d.store.graph, d.cache⟩) (next : Graph → Store)
    (hnext : ∀ g, (next g).graph = g) (c : Catalog) (change : Change) :
    Session.Sound ⟨(after next (unit c change.origin d.store.graph d.cache (change.previous d.store.graph)
        (change.statements ⟨d.store.graph, d.cache⟩))).store.graph,
      (after next (unit c change.origin d.store.graph d.cache (change.previous d.store.graph)
        (change.statements ⟨d.store.graph, d.cache⟩))).cache⟩ := by
  have hw : (start change.origin d.store.graph d.cache).Sound := ⟨hs.graph, hs.cache⟩
  have hp := previous_sublist change d.store.graph
  have hunit := sound_unit hw hp c (change.statements ⟨d.store.graph, d.cache⟩)
  refine ⟨?_, ?_, ?_⟩
  · change (next _).graph.WellFormed
    rw [hnext]
    exact hunit.graph
  · change BuildCache.Valid _ (next _).graph
    rw [hnext]
    exact hunit.cache.commit
  · change (next _).graph.AllHeld
    rw [hnext]
    exact allHeld_unit hw hp c _ hs.held

theorem Sound.rollback {d : Desk} (h : d.Sound) : Sound { d with cache := d.cache.rollback } :=
  ⟨h.catalog, ⟨h.session.graph, ⟨h.session.cache.1, (BuildCache.valid_empty _).2⟩, h.session.held⟩, h.traces⟩

end Desk

namespace Indexing

variable {d : Desk}

/-! ## Committing a file -/

/-- The catalog with a file and its symbols entered. -/
theorem commit_catalog (hd : d.Sound) (e : FileEntry) (declarations : List Declaration) :
    ∃ c, ((d.store.catalog.upsertFile e).1.replaceSymbols (d.store.catalog.upsertFile e).2
        (declarations.map (symbolOf e.path))) = .ok c ∧ c.WellFormed ∧
      (∀ q, c.Indexed q ↔ d.store.catalog.Indexed q ∨ q = e.path) ∧
      (∀ x ∈ declarations, c.Stores e.path (symbolOf e.path x)) ∧
      ∀ q i, q ≠ e.path → StoredDefinition d.store.catalog q i → StoredDefinition c q i := by
  have hc := hd.catalog.upsertFile e
  have hf : e.stored (d.store.catalog.upsertFile e).2 ∈ (d.store.catalog.upsertFile e).1.files :=
    (Catalog.mem_upsertFile hd.catalog e _).2 (Or.inl rfl)
  have hreplace := Catalog.replaceSymbols_eq hc hf (declarations.map (symbolOf e.path))
  obtain ⟨hwf, hfiles, hstores, hothers⟩ := Catalog.replaceSymbols_spec hc hf hreplace
  refine ⟨_, hreplace, hwf, ?_, ?_, ?_⟩
  · intro q
    rw [← Catalog.indexed_upsertFile hd.catalog]
    rfl
  · intro x hx
    exact hstores (symbolOf e.path x) (List.mem_map_of_mem hx)
  · rintro q i hne ⟨x, hx, owned, howned, id, heq⟩
    refine ⟨x, hx, hothers q _ hne ⟨owned, ?_, id, heq⟩⟩
    rw [Catalog.upsertFile_symbols]
    exact howned

/-- The change that committing a file makes. -/
def fileChange (file : PendingFile) (o : Outline) : Change :=
  .project file.path (categoryOf file.path o) (completed file o)

/-- Committing a file enters it in the catalog and carries out what its outline says. -/
theorem commitFile_eq (hd : d.Sound) (now : Int) (file : PendingFile) (o : Outline) :
    ∃ c, (commitFile now d file o).1 =
        Desk.after (fun graph => { d.store with catalog := c, graph := graph })
          (unit c file.path d.store.graph d.cache (d.store.graph.anchoredTo file.path)
            ((fileChange file o).statements ⟨d.store.graph, d.cache⟩)) ∧
      c.WellFormed ∧ (∀ q, c.Indexed q ↔ d.store.catalog.Indexed q ∨ q = file.path) ∧
      (∀ x ∈ (completed file o).declarations, c.Stores file.path (symbolOf file.path x)) ∧
      ∀ q i, q ≠ file.path → StoredDefinition d.store.catalog q i → StoredDefinition c q i := by
  obtain ⟨c, hreplace, hc⟩ := commit_catalog hd {
    path := file.path, fingerprint := file.fingerprint, category := categoryOf file.path o
    lineCount := (completed file o).lineCount.getD 0, modified := file.modified, indexedAt := now }
    (completed file o).declarations
  dsimp only at hreplace
  refine ⟨c, ?_, hc⟩
  have hcommit : (commitFile now d file o).1 =
      (d.settle (fun graph => { d.store with catalog := c, graph := graph })
        ((fileChange file o).run c ⟨d.store.graph, d.cache⟩)).1 := by
    rw [commitFile]
    simp only [hreplace]
    rfl
  exact hcommit.trans (Desk.settle_run hd.session _ c (fileChange file o))

/-- What a file leaves that is committed. -/
theorem commitFile_spec (hd : d.Sound) (now : Int) (file : PendingFile) (o : Outline) :
    ∃ c statements, (commitFile now d file o).1 =
        Desk.after (fun graph => { d.store with catalog := c, graph := graph })
          (unit c file.path d.store.graph d.cache (d.store.graph.anchoredTo file.path) statements) ∧
      c.WellFormed ∧ (∀ q, c.Indexed q ↔ d.store.catalog.Indexed q ∨ q = file.path) ∧
      Session.Sound ⟨(commitFile now d file o).1.store.graph, (commitFile now d file o).1.cache⟩ ∧
      FileWrites file.path c.Indexed (StoredDefinition c) statements ∧
      Extends file.path d.store.catalog.Indexed c.Indexed (StoredDefinition d.store.catalog) (StoredDefinition c) := by
  obtain ⟨c, hafter, hwf, hindexed, hstores, hothers⟩ := commitFile_eq hd now file o
  refine ⟨c, _, hafter, hwf, hindexed, ?_, ?_, ?_⟩
  · rw [hafter]
    exact Desk.session_after hd.session _ (fun _ => rfl) c (fileChange file o)
  · refine fileWrites_fileStatements ((hindexed file.path).2 (Or.inr rfl)) ?_
    rintro i ⟨x, hx, hi⟩
    exact ⟨x, hi, hstores x hx⟩
  · exact ⟨fun q _ hq => (hindexed q).2 (Or.inl hq), hothers⟩

theorem sound_commitFile (hd : d.Sound) (now : Int) (file : PendingFile) (o : Outline) :
    (commitFile now d file o).1.Sound := by
  obtain ⟨c, statements, hafter, hwf, _, hsession, hwrites, hext⟩ := commitFile_spec hd now file o
  have htraces := traces_fileUnit (hd.start file.path) hd.session.held c hwrites hext hd.traces
  rw [hafter] at hsession ⊢
  exact ⟨hwf, hsession, htraces⟩

/-! ## Removing a file -/

theorem sound_removeFile (hd : d.Sound) (path : String) : (removeFile d path).1.Sound := by
  obtain ⟨hwf, hindexed, hothers⟩ := Catalog.removeFile_spec hd.catalog path
  have hext : Extends path d.store.catalog.Indexed (d.store.catalog.removeFile path).1.Indexed
      (StoredDefinition d.store.catalog) (StoredDefinition (d.store.catalog.removeFile path).1) := by
    refine ⟨fun q hne hq => (hindexed q).2 ⟨hq, hne⟩, ?_⟩
    rintro q i hne ⟨x, hx, hstores⟩
    exact ⟨x, hx, hothers q _ hne hstores⟩
  let next : Graph → Store := fun graph =>
    { d.store with catalog := (d.store.catalog.removeFile path).1, graph := graph }
  have hsettle := Desk.settle_run hd.session next (d.store.catalog.removeFile path).1 (.retract path)
  have hsession := Desk.session_after hd.session next (fun _ => rfl) (d.store.catalog.removeFile path).1 (.retract path)
  have htraces := traces_fileUnit (hd.start path) hd.session.held (d.store.catalog.removeFile path).1 fileWrites_nil hext
    hd.traces
  rw [show (removeFile d path).1 = _ from hsettle]
  exact ⟨hwf, hsession, htraces⟩

/-! ## The schema -/

/-- A step that may change what the schema says, and leaves the files alone. Placeholders that files cite stay cited. -/
structure Refreshes (d d' : Desk) : Prop where
  sound : d'.Sound
  catalog : d'.store.catalog = d.store.catalog
  attached : ¬ d.store.catalog.Indexed Schema.origin → Attached d.store.catalog.Indexed d.store.graph →
    Attached d.store.catalog.Indexed d'.store.graph

theorem Refreshes.refl (hd : d.Sound) : Refreshes d d := ⟨hd, rfl, fun _ h => h⟩

theorem Refreshes.rollback (hd : d.Sound) : Refreshes d { d with cache := d.cache.rollback } :=
  ⟨hd.rollback, rfl, fun _ h => h⟩

/-- Notes are beside the point. -/
theorem Refreshes.annotate {d' d'' : Desk} (h : Refreshes d d') (hcatalog : d''.store.catalog = d'.store.catalog)
    (hgraph : d''.store.graph = d'.store.graph) (hcache : d''.cache = d'.cache) : Refreshes d d'' := by
  obtain ⟨⟨hwf, hsession, htraces⟩, hsame, hattached⟩ := h
  refine ⟨⟨?_, ?_, ?_⟩, hcatalog.trans hsame, ?_⟩
  · rw [hcatalog]
    exact hwf
  · rw [hgraph, hcache]
    exact hsession
  · rw [hcatalog, hgraph]
    exact htraces
  · rw [hgraph]
    exact hattached

/-- The unit of a schema. -/
theorem refreshes_settle (hd : d.Sound) {next : Graph → Store} (hgraph : ∀ g, (next g).graph = g)
    (hcatalog : ∀ g, (next g).catalog = d.store.catalog) (s : Schema) :
    Refreshes d (d.settle next (Projection.projectSchema d.store.catalog d.store.graph d.cache s)).1 := by
  have hwrites := schemaWrites_statements hd.session.graph s
  have hsettle := Desk.settle_run hd.session next d.store.catalog (.projectSchema s)
  have hsession := Desk.session_after hd.session next hgraph d.store.catalog (.projectSchema s)
  have htraces := traces_schemaUnit (hd.start Schema.origin) d.store.catalog hwrites hd.traces
  rw [show (d.settle next (Projection.projectSchema d.store.catalog d.store.graph d.cache s)).1 = _ from hsettle]
  refine ⟨⟨?_, hsession, ?_⟩, hcatalog _, ?_⟩
  · change (next _).catalog.WellFormed
    rw [hcatalog]
    exact hd.catalog
  · change Traces (next _).catalog.Indexed (StoredDefinition (next _).catalog) (next _).graph
    rw [hcatalog, hgraph]
    exact htraces
  · intro horigin hattached
    change Attached _ (next _).graph
    rw [hgraph]
    exact attached_schemaUnit (hd.start Schema.origin) d.store.catalog hwrites horigin hd.traces hattached

theorem refreshes_removeSchema (hd : d.Sound) : Refreshes d (removeSchema d).1 := by
  unfold removeSchema
  exact refreshes_settle hd (fun _ => by rfl) (fun _ => by rfl) {}

theorem refreshes_commitSchema (hd : d.Sound) (print : String) (s : Schema) :
    Refreshes d (commitSchema d print s).1 := by
  unfold commitSchema
  exact refreshes_settle hd (fun _ => by rfl) (fun _ => by rfl) s

theorem refreshes_dropSchema (hd : d.Sound) (summary : SchemaSummary) : Refreshes d (dropSchema d summary).1 := by
  unfold dropSchema
  split
  · exact (Refreshes.refl hd).annotate rfl rfl rfl
  · have h := refreshes_removeSchema hd
    split
    · next heq => rw [heq] at h; exact h
    · next heq => rw [heq] at h; exact h

theorem refreshes_rebuildSchema (hd : d.Sound) (path : String) (file : SourceFile) (force : Bool) :
    Refreshes d (rebuildSchema d path file force).1 := by
  unfold rebuildSchema
  dsimp only
  split
  · exact Refreshes.refl hd
  · split
    · exact (Refreshes.rollback hd).annotate rfl rfl rfl
    · have h := refreshes_commitSchema hd (fingerprint file.bytes) (Schema.ofSource file.text)
      split
      · next heq => rw [heq] at h; exact h
      · next heq => rw [heq] at h; exact h.annotate rfl rfl rfl

theorem refreshes_refreshSchema (hd : d.Sound) (t : Tree) (path : String) (force : Bool) :
    Refreshes d (refreshSchema t d path force).1 := by
  unfold refreshSchema
  dsimp only
  split
  · exact refreshes_dropSchema hd _
  · exact refreshes_rebuildSchema hd _ _ force

end Indexing

end CodeAtlas
