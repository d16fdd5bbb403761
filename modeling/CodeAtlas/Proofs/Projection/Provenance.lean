import CodeAtlas.Proofs.Projection.FileStatements
import CodeAtlas.Proofs.Projection.SchemaStatements
import CodeAtlas.Proofs.Projection.Unit
/-!
# Where nodes come from

A file writes nodes that are anchored to it and not inferred; the schema writes nodes of its own kinds only, and refers
to other nodes only if they are there. So a unit of a file has the nodes anchored to the file as its own, and the unit
of the schema leaves files, classes, modules and methods alone.
-/

namespace CodeAtlas.Projection

/-! ## Nodes of a unit's own -/

theorem mem_anchoredTo {g : Graph} (hg : g.WellFormed) {n : Node} (hn : n ∈ g.nodes) (path : String) :
    n.id ∈ (g.anchoredTo path).map Node.id ↔ ∃ a, n.anchor = some a ∧ a.path = path := by
  simp only [Graph.anchoredTo, List.mem_map, List.mem_filter]
  constructor
  · rintro ⟨m, ⟨hm, h⟩, hid⟩
    rw [hg.node_eq_of_id hm hn hid] at h
    cases ha : n.anchor with
    | none => simp [ha] at h
    | some a => exact ⟨a, rfl, by simpa [ha] using h⟩
  · rintro ⟨a, ha, hpath⟩
    exact ⟨n, ⟨hn, by simp [ha, hpath]⟩, rfl⟩

theorem mem_bySource {g : Graph} (hg : g.WellFormed) {n : Node} (hn : n ∈ g.nodes) (source : NodeSource) :
    n.id ∈ (g.bySource source).map Node.id ↔ n.source = source := by
  simp only [Graph.bySource, List.mem_map, List.mem_filter]
  constructor
  · rintro ⟨m, ⟨hm, h⟩, hid⟩
    rw [hg.node_eq_of_id hm hn hid] at h
    simpa using h
  · intro h
    exact ⟨n, ⟨hn, by simpa using h⟩, rfl⟩

/-- Metadata stay records through every unit that writes such. -/
theorem isRecord_unit {o : String} {g : Graph} {cache : BuildCache} {previous : List Node} {c : Catalog}
    {statements : List Statement} (hw : (start o g cache).Sound) (hp : previous.Sublist g.nodes)
    (hstatements : ∀ n, Statement.declare n ∈ statements → n.metadata.IsRecord)
    (h : ∀ n ∈ g.nodes, n.metadata.IsRecord) :
    ∀ m ∈ (unit c o g cache previous statements).graph.nodes, m.metadata.IsRecord := by
  intro m hm
  cases emerges_unit hw hp hm with
  | declared n mem stored =>
      rw [stored]
      exact (hstatements n mem).canonical
  | kept mem _ _ => exact h m mem
  | referred _ _ stored _ _ _ =>
      rw [stored]
      exact (Json.isRecord_record [("inferred", .bool true)]).canonical
  | moved _ _ _ _ _ _ d _ _ _ definition stored =>
      rw [stored]
      exact definition.isRecord.canonical
  | demoted n mem _ _ _ _ eq =>
      rw [eq]
      exact (h n mem).set _ _

/-- Only nodes of the schema's kinds come from the schema. -/
theorem fromSchema_unit {o : String} {g : Graph} {cache : BuildCache} {previous : List Node} {c : Catalog}
    {statements : List Statement} (hw : (start o g cache).Sound) (hp : previous.Sublist g.nodes)
    (hstatements : ∀ n, Statement.declare n ∈ statements → n.source = .fromSchema → n.kind.isSchema = true)
    (h : ∀ n ∈ g.nodes, n.source = .fromSchema → n.kind.isSchema = true) :
    ∀ m ∈ (unit c o g cache previous statements).graph.nodes, m.source = .fromSchema → m.kind.isSchema = true := by
  intro m hm hsource
  cases emerges_unit hw hp hm with
  | declared n mem stored =>
      rw [stored] at hsource ⊢
      exact hstatements n mem hsource
  | kept mem _ _ => exact h m mem hsource
  | referred _ _ stored _ _ _ =>
      rw [stored] at hsource
      exact absurd hsource (by simp [NewNode.stored, Graph.placeholder])
  | moved _ _ _ _ _ _ d _ _ _ definition stored =>
      have hd : m.source = d.source := by
        rw [stored]
        rfl
      rw [hd, definition.source] at hsource
      exact absurd hsource (by simp)
  | demoted n mem _ _ _ _ eq =>
      rw [eq] at hsource ⊢
      exact h n mem hsource

/-! ## Nodes of files -/

theorem metadataOf_inferred (d : Declaration) (n : NewNode) (hn : n.metadata = metadataOf d) (id : Int) :
    (n.stored id).isInferred = false := by
  refine Node.isInferred_stored_record hn ?_ id
  intro h
  obtain ⟨field, hfield, hname⟩ := List.mem_map.1 h
  simp only [List.mem_append, List.mem_singleton, Option.mem_toList, Option.map_eq_some_iff] at hfield
  rcases hfield with ((rfl | ⟨t, _, rfl⟩) | ⟨t, _, rfl⟩) | hfield
  · exact absurd hname (by simp)
  · exact absurd hname (by simp)
  · exact absurd hname (by simp)
  · split at hfield
    · rw [List.mem_singleton] at hfield
      subst hfield
      exact absurd hname (by simp)
    · exact absurd hfield (by simp)

theorem FileNode.definedIn {path : String} {category : Category} {o : Outline} {n : NewNode}
    (h : FileNode path category o n) : n.DefinedIn path := by
  cases h with
  | file =>
      refine ⟨⟨_, rfl, rfl⟩, rfl, Json.isRecord_record _, fun id => ?_⟩
      exact Node.isInferred_stored_record rfl (by simp) id
  | declaration d i _ _ =>
      exact ⟨⟨_, rfl, rfl⟩, rfl, Json.isRecord_record _, metadataOf_inferred d _ rfl⟩

/-! ## Nodes of the schema -/

/-- The statements of a schema in a graph. -/
structure SchemaSays (g : Graph) (statements : List Statement) : Prop where
  nodes : ∀ n, Statement.declare n ∈ statements → SchemaNode n
  ends : ∀ l, Relates statements l → l.kind ≠ .defines ∧
    (l.source.1.isSchema = true ∨ g.Has l.source) ∧ (l.target.1.isSchema = true ∨ g.Has l.target)

theorem schemaSays_statements {g : Graph} (hg : g.WellFormed) (s : Schema) :
    SchemaSays g (schemaStatements s fun c => (g.nodeId? .classDecl c).isSome) := by
  refine ⟨fun n hn => schemaNode_of_mem hn, ?_⟩
  rintro l ⟨locations, metadata, h⟩
  cases schemaLink_of_mem h with
  | hasColumn => exact ⟨by simp, Or.inl rfl, Or.inl rfl⟩
  | references => exact ⟨by simp, Or.inl rfl, Or.inl rfl⟩
  | backs model table there =>
      exact ⟨by simp, Or.inr ((Graph.nodeId?_isSome_iff hg _ _).1 there), Or.inl rfl⟩
  | hasIndex => exact ⟨by simp, Or.inl rfl, Or.inl rfl⟩

theorem schemaSays_nil (g : Graph) : SchemaSays g [] :=
  ⟨fun n hn => absurd hn (by simp), fun l ⟨_, _, h⟩ => absurd h (by simp)⟩

theorem definingKind?_of_isSchema {k : NodeKind} (h : k.isSchema = true) : definingKind? k = none ∧ k ≠ .file := by
  cases k <;> simp_all [NodeKind.isSchema, definingKind?]

/-- The unit of the schema leaves every node alone that is not of its kinds. -/
theorem mem_of_mem_schemaUnit {g : Graph} {cache : BuildCache} {c : Catalog} {statements : List Statement}
    (hw : (start Schema.origin g cache).Sound) (hwords : SchemaSays g statements)
    (h : ∀ n ∈ g.nodes, n.source = .fromSchema → n.kind.isSchema = true) {m : Node}
    (hm : m ∈ (unit c Schema.origin g cache (g.bySource .fromSchema) statements).graph.nodes)
    (hkind : m.kind.isSchema = false) : m ∈ g.nodes := by
  have hp : (g.bySource .fromSchema).Sublist g.nodes := List.filter_sublist
  have hown : ∀ n ∈ g.nodes, n.id ∈ (g.bySource .fromSchema).map Node.id → n.kind.isSchema = true :=
    fun n hn hid => h n hn ((mem_bySource hw.graph hn _).1 hid)
  cases emerges_unit hw hp hm with
  | declared n mem stored =>
      rw [stored] at hkind
      have hk := (hwords.nodes n mem).kind
      rw [show (n.stored m.id).kind = n.kind from rfl, hk] at hkind
      exact absurd hkind (by simp)
  | kept mem _ _ => exact mem
  | referred new _ _ l related atEnd =>
      obtain ⟨_, hsource, htarget⟩ := hwords.ends l related
      have hk : m.identity.1.isSchema = false := hkind
      rcases atEnd with heq | heq
      · rw [← heq, hk] at hsource
        rcases hsource with hs | hs
        · exact absurd hs (by simp)
        · exact absurd hs new
      · rw [← heq, hk] at htarget
        rcases htarget with hs | hs
        · exact absurd hs (by simp)
        · exact absurd hs new
  | moved n mem same own _ _ _ _ _ _ _ _ =>
      have hk : n.kind = m.kind := congrArg Prod.fst same
      have hschema := hown n mem own
      rw [hk, hkind] at hschema
      exact absurd hschema (by simp)
  | demoted n mem own _ _ _ eq =>
      have hschema := hown n mem own
      rw [eq, show n.demoted.kind = n.kind from rfl, hschema] at hkind
      exact absurd hkind (by simp)

end CodeAtlas.Projection
