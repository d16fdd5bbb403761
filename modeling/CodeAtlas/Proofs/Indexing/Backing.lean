import CodeAtlas.Proofs.Indexing.Staleness
/-!
# Model classes and their tables

A `backs` edge goes from a class to the table that the class is the model of. Only the unit of the schema writes such
edges, for the classes that are there at that time, and so they always join a table to the class of its name
(`kept_namesModels`). Whether all of them are there depends on what has changed since the schema was last stored. Every
run that changes files has to store it anew; a run that changes files and cannot do so leaves the edges overdue, and they
stay so if the next runs find the schema unchanged (`Overdue`). Otherwise the edges are complete whenever a run has read
the schema (`backs_iff_classify`).
-/

namespace CodeAtlas

open Inflection

def Graph.Backs (g : Graph) (c : Node) (table : String) : Prop :=
  ∃ n ∈ g.nodes, n.kind = .table ∧ n.key = table ∧
    ∃ e ∈ g.edges, e.kind = .backs ∧ e.source = c.id ∧ e.target = n.id

instance (g : Graph) (c : Node) (table : String) : Decidable (g.Backs c table) :=
  inferInstanceAs (Decidable (∃ n ∈ g.nodes, n.kind = .table ∧ n.key = table ∧
    ∃ e ∈ g.edges, e.kind = .backs ∧ e.source = c.id ∧ e.target = n.id))

def backsLink (model table : String) : Link := ⟨.backs, (.classDecl, model), (.table, table)⟩

theorem Graph.backs_iff_holds {g : Graph} (hg : g.WellFormed) (hheld : g.AllHeld) {c : Node} (hc : c ∈ g.nodes)
    (hkind : c.kind = .classDecl) (table : String) :
    g.Backs c table ↔ ∃ x, g.Holds (backsLink c.key table) x := by
  have hname : g.Names c.id (.classDecl, c.key) := by
    have hmem := Graph.names_of_mem hc
    rwa [Node.identity, hkind] at hmem
  constructor
  · rintro ⟨n, hn, hnkind, hnkey, e, he, hekind, hsource, htarget⟩
    obtain ⟨x, hx⟩ := hheld e he
    refine ⟨x, e, he, ⟨hekind, ?_, ?_⟩, hx⟩
    · rw [hsource]
      exact hname
    · exact ⟨n, hn, htarget.symm, Prod.ext hnkind hnkey⟩
  · rintro ⟨x, e, he, ⟨hekind, hsource, n, hn, hid, hidentity⟩, hx⟩
    refine ⟨n, hn, congrArg Prod.fst hidentity, congrArg Prod.snd hidentity, e, he, hekind, ?_, hid.symm⟩
    exact hsource.id_eq hg hname

namespace Projection

open CodeAtlas.Schema

/-- A schema relates a class to a table if the table is named after the class and the class is known. -/
theorem relates_backs_iff {s : Schema} {known : String → Bool} {model table : String} :
    Relates (schemaStatements s known) (backsLink model table) ↔
      table ∈ s.tableNames ∧ model = classify table ∧ known model = true := by
  constructor
  · intro ⟨locations, metadata, h⟩
    simp only [schemaStatements, contentStatements, columnStatements, backingStatements, foreignKeyStatements,
      indexStatements, backsLink, List.mem_append, List.mem_map, List.mem_flatMap, reduceCtorEq, and_false,
      exists_false, false_or] at h
    rcases h with ⟨t, ht, ⟨c, _, h⟩ | h⟩ | ⟨k, _, h⟩ | ⟨i, _, h⟩
    · simp at h
    · split at h
      · next hknown =>
          simp only [List.mem_singleton, Statement.relate.injEq, Link.mk.injEq, Prod.mk.injEq, true_and] at h
          obtain ⟨⟨rfl, rfl⟩, _, _⟩ := h
          exact ⟨List.mem_map_of_mem ht, rfl, hknown⟩
      · exact absurd h List.not_mem_nil
    · split at h <;> simp at h
    · split at h <;> simp at h
  · rintro ⟨htable, rfl, hknown⟩
    obtain ⟨t, ht, rfl⟩ := List.mem_map.1 htable
    refine ⟨[], .obj [], ?_⟩
    rw [schemaStatements, List.mem_append, List.mem_append]
    refine Or.inr (Or.inl (List.mem_flatMap.2 ⟨t, ht, ?_⟩))
    rw [contentStatements, List.mem_append, backingStatements, if_pos hknown]
    exact Or.inr List.mem_cons_self

end Projection

namespace Indexing

open Projection

/-- Every `backs` edge joins a table to the class of its name. -/
def NamesModels (s : Store) : Prop := ∀ model table x, s.graph.Holds (backsLink model table) x → model = classify table

section

variable {d : Desk}

theorem namesModels_fileUnit {path : String} {g : Graph} {cache : BuildCache} {c : Catalog} {statements : List Statement}
    (hw : (start path g cache).Sound) (hapart : ApartFromSchema statements)
    (h : ∀ model table x, g.Holds (backsLink model table) x → model = classify table) :
    ∀ model table x, (unit c path g cache (g.anchoredTo path) statements).graph.Holds (backsLink model table) x →
      model = classify table := by
  intro model table x hx
  rcases (holds_unit hw List.filter_sublist c statements _ x).1 hx with ⟨_, hold⟩ | ⟨_, hrelates⟩
  · exact h model table x hold
  · exact absurd (hapart.links _ hrelates).2 (by simp [backsLink, NodeKind.isSchema])

theorem namesModels_schemaGraph (hd : d.Sound) (h : NamesModels d.store) (s : Schema) :
    ∀ model table x, (schemaGraph d s).Holds (backsLink model table) x → model = classify table := by
  intro model table x hx
  rcases (holds_unit (hd.start Schema.origin) List.filter_sublist _ _ _ x).1 hx with ⟨_, hold⟩ | ⟨_, hrelates⟩
  · exact h model table x hold
  · exact (relates_backs_iff.1 hrelates).2.1

theorem kept_namesModels : Kept NamesModels where
  clear s := by
    intro model table x hx
    obtain ⟨e, he, _⟩ := hx
    exact absurd he List.not_mem_nil
  notes _ _ h := h
  commitFile d hd h now file o := by
    obtain ⟨c, hafter, _⟩ := commitFile_eq hd now file o
    rw [hafter]
    exact namesModels_fileUnit (hd.start file.path) apartFromSchema_fileStatements h
  removeFile d hd h path := by
    have hsettle := Desk.settle_run hd.session
      (fun graph => { d.store with catalog := (d.store.catalog.removeFile path).1, graph := graph })
      (d.store.catalog.removeFile path).1 (.retract path)
    rw [show (removeFile d path).1 = _ from hsettle]
    exact namesModels_fileUnit (hd.start path) apartFromSchema_nil h
  commitSchema d hd h print s := by
    unfold commitSchema
    rw [store_settle hd]
    exact namesModels_schemaGraph hd h s
  removeSchema d hd h := by
    unfold removeSchema retractSchema
    rw [store_settle hd]
    exact namesModels_schemaGraph hd h {}

/-! ## The edges after a run -/

/-- Between stored tables and classes there are the `backs` edges that the names call for. -/
def Backed (s : Store) : Prop :=
  ∀ t ∈ s.schema.tables, ∀ c ∈ s.graph.nodes, c.kind = .classDecl → (s.graph.Backs c t.name ↔ c.key = classify t.name)

theorem backed_of_no_tables {s : Store} (h : s.schema.tables = []) : Backed s := by
  intro t ht
  rw [h] at ht
  exact absurd ht List.not_mem_nil

theorem Backed.of_eq {s s' : Store} (h : Backed s) (hschema : s'.schema = s.schema) (hgraph : s'.graph = s.graph) :
    Backed s' := by
  unfold Backed
  rw [hschema, hgraph]
  exact h

theorem backed_withSchema (hd : d.Sound) (h : NamesModels d.store) (print : String) (s : Schema) :
    Backed (withSchema d print s) := by
  have hw := hd.start Schema.origin
  have hp : (d.store.graph.bySource .fromSchema).Sublist d.store.graph.nodes := List.filter_sublist
  intro t ht c hc hkind
  have hgraph : (schemaGraph d s).WellFormed := (sound_unit hw hp _ _).graph
  have hheld : (schemaGraph d s).AllHeld := allHeld_unit hw hp _ _ hd.session.held
  change (schemaGraph d s).Backs c t.name ↔ _
  rw [Graph.backs_iff_holds hgraph hheld hc hkind]
  constructor
  · intro ⟨x, hx⟩
    exact namesModels_schemaGraph hd h s c.key t.name x hx
  · intro hname
    have hbefore : c ∈ d.store.graph.nodes :=
      mem_of_mem_schemaUnit hw (schemaSays_statements hd.session.graph s) hd.traces.fromSchema hc (by rw [hkind]; rfl)
    have hknown : (d.store.graph.nodeId? .classDecl c.key).isSome = true := by
      refine (Graph.nodeId?_isSome_iff hd.session.graph _ _).2 ⟨c.id, ?_⟩
      rw [← hkind]
      exact Graph.names_of_mem hbefore
    refine ⟨Schema.origin, (holds_unit hw hp _ _ _ _).2 (Or.inr ⟨rfl, relates_backs_iff.2 ⟨?_, hname, hknown⟩⟩)⟩
    exact List.mem_map_of_mem ht

end

/-- There is no stored table without a fingerprint of its schema. -/
def Fingerprinted (s : Store) : Prop := s.note? Store.schemaFingerprint = none → s.schema.tables = []

/-- A run changes files and does not bring the schema up to date. -/
def FallsBehind (s : Store) (q : Request) : Prop :=
  0 < q.changed s ∧ ∀ summary, q.told s = some summary → summary.error.isSome = true

/-- A run neither stores the schema anew nor removes it. -/
def StaysBehind (s : Store) (q : Request) : Prop :=
  match q.told s with
  | some summary => summary.rebuilt = false ∧ summary.missing = false
  | none => q.clears = false

/-- Some run changed files and did not bring the schema up to date, and none has done so since. -/
def Overdue (requests : List Request) : Prop := Outstanding FallsBehind StaysBehind requests

section

variable {q : Request} {s : Store}

theorem Fingerprinted.opened (h : Fingerprinted s) (q : Request) : Fingerprinted (q.opened s) := by
  unfold Request.opened
  split
  · exact fun _ => rfl
  · exact h

theorem Fingerprinted.of_eq {s' : Store} (h : Fingerprinted s)
    (hnote : s'.note? Store.schemaFingerprint = s.note? Store.schemaFingerprint) (hschema : s'.schema = s.schema) :
    Fingerprinted s' := by
  unfold Fingerprinted
  rw [hnote, hschema]
  exact h

theorem Fingerprinted.serve (h : Fingerprinted s) (hs : Standing s) (q : Request) : Fingerprinted (q.serve s) := by
  have hopened := h.opened q
  have hleft : ∀ {d : Desk}, Leaves (q.opened s) d (q.changed s) → Fingerprinted d.store := by
    intro d left
    exact hopened.of_eq (by rw [Store.note?, left.notes]; rfl) left.schema
  have hperformed := performed_serve hs q
  generalize q.serve s = after, q.told s = told at hperformed
  cases hperformed with
  | unstarted => exact hopened
  | unconfigured d left => exact (hleft left).of_eq (Store.note?_setNote_of_ne _ _ (by decide)) rfl
  | refreshed d left path _ after summary step =>
      suffices hafter : Fingerprinted after from hafter.of_eq (Store.note?_setNote_of_ne _ _ (by decide)) rfl
      cases step with
      | absent => exact (hleft left).of_eq (Store.note?_dropNote_of_ne _ (by decide)) rfl
      | removed => exact fun _ => rfl
      | unchanged => exact hleft left
      | refused => exact (hleft left).of_eq (Store.note?_setNote_of_ne _ _ (by decide)) rfl
      | rebuilt =>
          intro hnone
          rw [withSchema, Store.note?_dropNote_of_ne _ (by decide), Store.note?_setNote_self] at hnone
          exact absurd hnone (by simp)

theorem backed_opened (h : q.clears = false → Backed s) : Backed (q.opened s) := by
  unfold Request.opened
  cases hclears : q.clears with
  | false => exact h hclears
  | true => exact backed_of_no_tables rfl

theorem Leaves.backed {d : Desk} (left : Leaves (q.opened s) d (q.changed s)) (hidle : q.changed s = 0)
    (h : q.clears = false → Backed s) : Backed d.store := by
  rw [left.idle hidle]
  exact backed_opened h

/-- A run that does not fall behind leaves the edges complete, if it brings the schema up to date or they were complete
before. -/
theorem backed_serve (hs : Standing s) (hstored : Fingerprinted s) (hnames : NamesModels s)
    (hbehind : ¬ FallsBehind s q) (hbefore : StaysBehind s q → Backed s) : Backed (q.serve s) := by
  have hopened : NamesModels (q.opened s) := by
    unfold Request.opened
    split
    · exact kept_namesModels.clear s
    · exact hnames
  have hperformed := performed_serve hs q
  unfold StaysBehind at hbefore
  unfold FallsBehind at hbehind
  generalize q.serve s = after, q.told s = told at hperformed hbefore hbehind
  cases hperformed with
  | unstarted => exact backed_opened hbefore
  | unconfigured d left =>
      have hidle : q.changed s = 0 := by
        by_contra hne
        exact hbehind ⟨Nat.pos_of_ne_zero hne, fun _ h => absurd h (by simp)⟩
      exact (left.backed hidle hbefore).of_eq rfl rfl
  | refreshed d left path _ after summary step =>
      suffices hafter : Backed after from hafter.of_eq rfl rfl
      cases step with
      | absent gone never =>
          -- Without a fingerprint no tables are stored, so there is nothing to join.
          have hnever : (q.opened s).note? Store.schemaFingerprint = none := by
            rw [← never, Store.note?, Store.note?, left.notes]
          refine backed_of_no_tables ?_
          rw [show (d.store.dropNote Store.schemaError).schema = d.store.schema from rfl, left.schema]
          exact hstored.opened q hnever
      | removed => exact backed_of_no_tables rfl
      | unchanged file found lazy stored =>
          -- The schema is passed over only if no file changed, and then the edges are those from before the run.
          rw [Bool.or_eq_false_iff, decide_eq_false_iff_not] at lazy
          exact left.backed (Nat.eq_zero_of_not_pos lazy.2) fun _ => hbefore ⟨rfl, rfl⟩
      | refused file found due e refusal =>
          have hidle : q.changed s = 0 := by
            by_contra hne
            exact hbehind ⟨Nat.pos_of_ne_zero hne, fun summary h => by rw [← Option.some.inj h]; rfl⟩
          exact (left.backed hidle fun _ => hbefore ⟨rfl, rfl⟩).of_eq rfl rfl
      | rebuilt file found due accepted =>
          exact backed_withSchema left.sound (left.kept _ kept_namesModels hopened) _ _

end

theorem fingerprinted_served (requests : List Request) : Fingerprinted (served requests) := by
  induction requests using List.reverseRecOn with
  | nil => exact fun _ => rfl
  | append_singleton requests q ih =>
      rw [served_append]
      exact ih.serve (standing_served requests) q

theorem backed_of_not_overdue {requests : List Request} (h : ¬ Overdue requests) : Backed (served requests) := by
  induction requests using List.reverseRecOn with
  | nil => exact backed_of_no_tables rfl
  | append_singleton requests q ih =>
      rw [Overdue, outstanding_append, not_or, not_and_or] at h
      rw [served_append]
      refine backed_serve (standing_served requests) (fingerprinted_served requests) (kept_namesModels.served requests) h.1
        fun hstays => ih ?_
      rcases h.2 with hbefore | hnot
      · exact hbefore
      · exact absurd hstays hnot

/-- After any runs a `backs` edge goes from a class to a stored table only if the table has the name of the class. After a
run that has read the schema without error the edge is there for every such class and table, unless an earlier run
changed files without bringing the schema up to date, and no run has stored it since. -/
theorem backs_iff_classify (requests : List Request) :
    (∀ t ∈ (served requests).schema.tables, ∀ c ∈ (served requests).graph.nodes, c.kind = .classDecl →
      (served requests).graph.Backs c t.name → c.key = classify t.name) ∧
    ∀ (q : Request) (summary : SchemaSummary), q.told (served requests) = some summary → summary.missing = false →
      summary.error = none → summary.rebuilt = true ∨ ¬ Overdue requests →
      ∀ t ∈ (served (requests ++ [q])).schema.tables, ∀ c ∈ (served (requests ++ [q])).graph.nodes,
        c.kind = .classDecl → ((served (requests ++ [q])).graph.Backs c t.name ↔ c.key = classify t.name) := by
  have hstanding := standing_served requests
  refine ⟨?_, ?_⟩
  · intro t _ c hc hkind hbacks
    obtain ⟨x, hx⟩ := (Graph.backs_iff_holds hstanding.session.graph hstanding.session.held hc hkind t.name).1 hbacks
    exact kept_namesModels.served requests c.key t.name x hx
  · intro q summary htold _ herror hcurrent
    rw [served_append]
    refine backed_serve hstanding (fingerprinted_served requests) (kept_namesModels.served requests) ?_ ?_
    · intro ⟨_, hbehind⟩
      have hsome := hbehind summary htold
      rw [herror] at hsome
      exact absurd hsome (by simp)
    · intro hstays
      rw [StaysBehind, htold] at hstays
      rcases hcurrent with hrebuilt | hnot
      · exact absurd (hrebuilt.symm.trans hstays.1) (by simp)
      · exact backed_of_not_overdue hnot

/-! ## A class that is found too late -/

def modelledTree : Tree := describedTree.write ["user.rb"] ⟨Text.encode "class User\nend\n", 0⟩

/-- A schema is stored; then the class of its table comes, while the schema file cannot be read. -/
def overtakingRuns : List Request :=
  [.tree describedTree schemaOnly 0 .full,
    .tree (modelledTree.write ["db", "schema.rb"] ⟨Text.encode "create_table\n", 0⟩) schemaOnly 0 .incremental]

/-- The schema file is what it was when it was stored. -/
def modelledRun : Request := .tree modelledTree schemaOnly 0 .incremental

/-- A class and a stored table of its name with no edge between them. -/
def Unbacked (s : Store) : Prop :=
  ∃ t ∈ s.schema.tables, ∃ c ∈ s.graph.nodes, c.kind = .classDecl ∧ c.key = classify t.name ∧ ¬ s.graph.Backs c t.name

instance (s : Store) : Decidable (Unbacked s) :=
  inferInstanceAs (Decidable (∃ t ∈ s.schema.tables, ∃ c ∈ s.graph.nodes,
    c.kind = .classDecl ∧ c.key = classify t.name ∧ ¬ s.graph.Backs c t.name))

set_option maxRecDepth 100000 in
/-- A run can read the schema without error and leave a class without the edge to its table. -/
theorem exists_class_without_backs :
    ¬ ∀ (path : String) (requests : List Request) (q : Request) (summary : SchemaSummary),
      (∀ p ∈ requests ++ [q], p.options.schema = some path) → q.told (served requests) = some summary →
      summary.missing = false → summary.error = none →
      ∀ t ∈ (served (requests ++ [q])).schema.tables, ∀ c ∈ (served (requests ++ [q])).graph.nodes,
        c.kind = .classDecl → ((served (requests ++ [q])).graph.Backs c t.name ↔ c.key = classify t.name) := by
  intro hlaw
  have hruns : (modelledRun.told (served overtakingRuns)).map (fun s => (s.missing, s.error)) = some (false, none) ∧
      Unbacked (served (overtakingRuns ++ [modelledRun])) := by
    decide +kernel
  obtain ⟨summary, htold, hpair⟩ := Option.map_eq_some_iff.1 hruns.1
  obtain ⟨t, ht, c, hc, hkind, hname, hnone⟩ := hruns.2
  have hbacks := hlaw "db/schema.rb" overtakingRuns modelledRun summary (by decide) htold (congrArg Prod.fst hpair)
    (congrArg Prod.snd hpair) t ht c hc hkind
  exact hnone (hbacks.2 hname)

def modelledRuns : List Request := [.tree modelledTree schemaOnly 0 .full]

set_option maxRecDepth 100000 in
/-- A run that finds the schema unchanged after that leaves the edge from the class to its table. -/
theorem backs_iff_classify_modelled :
    (∃ summary, modelledRun.told (served modelledRuns) = some summary ∧ summary.rebuilt = false ∧
      ¬ Overdue modelledRuns) ∧
    ∃ t ∈ (served (modelledRuns ++ [modelledRun])).schema.tables,
      ∃ c ∈ (served (modelledRuns ++ [modelledRun])).graph.nodes,
        c.key = "User" ∧ (served (modelledRuns ++ [modelledRun])).graph.Backs c t.name := by
  have hruns :
      ((Request.tree modelledTree schemaOnly 0 .full).told (served [])).map (·.error) = some none ∧
      (modelledRun.told (served modelledRuns)).map (fun s => (s.missing, s.error, s.rebuilt)) =
        some (false, none, false) ∧
      ∃ t ∈ (served (modelledRuns ++ [modelledRun])).schema.tables,
        ∃ c ∈ (served (modelledRuns ++ [modelledRun])).graph.nodes,
          c.kind = .classDecl ∧ c.key = "User" ∧ c.key = classify t.name := by
    decide +kernel
  obtain ⟨first, hfirst, hnone⟩ := Option.map_eq_some_iff.1 hruns.1
  have hcurrent : ¬ Overdue modelledRuns := by
    intro hoverdue
    rcases outstanding_append.1 (show Overdue ([] ++ modelledRuns) from hoverdue) with hbehind | ⟨hbefore, _⟩
    · have hsome := hbehind.2 first hfirst
      rw [hnone] at hsome
      exact absurd hsome (by simp)
    · exact not_outstanding_nil hbefore
  obtain ⟨summary, htold, htriple⟩ := Option.map_eq_some_iff.1 hruns.2.1
  obtain ⟨t, ht, c, hc, hkind, hkey, hname⟩ := hruns.2.2
  have hbacks := (backs_iff_classify modelledRuns).2 modelledRun summary htold (congrArg Prod.fst htriple)
    (congrArg (·.2.1) htriple) (Or.inr hcurrent) t ht c hc hkind
  exact ⟨⟨summary, htold, congrArg (·.2.2) htriple, hcurrent⟩, t, ht, c, hc, hkey, hbacks.2 hname⟩

end Indexing

end CodeAtlas
