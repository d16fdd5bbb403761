import CodeAtlas.Proofs.Projection.Provenance
/-!
# What keeps a node

Every node of a file, class, module or method can be traced: it is anchored to a file that defines it, an edge that an
indexed file holds touches it, or it is a placeholder that nothing but `backs` edges of the schema touch
(`Traces.classify`). As long as files are only added, the last case does not occur (`Attached`). Which files are
indexed, and what they define, is left open here: `I path` and `D path i` stand for it.
-/

namespace CodeAtlas.Projection

/-- The graph speaks of indexed files only: anchors are definitions, `defines` edges are held by the file that defines,
and edges that no indexed file holds are edges of the schema. -/
structure Traces (I : String → Prop) (D : String → Identity → Prop) (g : Graph) : Prop where
  isRecord : ∀ n ∈ g.nodes, n.metadata.IsRecord
  fromSchema : ∀ n ∈ g.nodes, n.source = .fromSchema → n.kind.isSchema = true
  symbols : ∀ n ∈ g.nodes, (definingKind? n.kind).isSome = true → ∀ a, n.anchor = some a → D a.path n.identity
  files : ∀ n ∈ g.nodes, n.kind = .file → ∀ a, n.anchor = some a → a.path = n.key ∧ I n.key
  placeholders : ∀ n ∈ g.nodes, n.kind.isSchema = false → n.anchor = none → n.isInferred = true
  defines : ∀ path i x, g.Holds ⟨.defines, (.file, path), i⟩ x → x = path ∧ D path i
  holders : ∀ l x, g.Holds l x → I x ∨ (x = Schema.origin ∧ ∃ known, SchemaLink known l)

/-- An indexed file holds an edge that touches the node with an identity. -/
def Cited (I : String → Prop) (g : Graph) (i : Identity) : Prop :=
  ∃ l x, g.Holds l x ∧ I x ∧ (l.source = i ∨ l.target = i)

/-- A placeholder that only `backs` edges of the schema touch, if any. -/
structure Leftover (g : Graph) (n : Node) : Prop where
  anchor : n.anchor = none
  inferred : n.isInferred = true
  edges : ∀ e ∈ g.edges, e.source = n.id ∨ e.target = n.id → e.kind = .backs ∧ ∀ x ∈ e.holders, x = Schema.origin

theorem defining_or_file {k : NodeKind} (h : k.isSchema = false) : (definingKind? k).isSome = true ∨ k = .file := by
  cases k <;> simp_all [NodeKind.isSchema, definingKind?]

/-- The only edges of the schema that touch a node of another kind are `backs` edges. -/
theorem SchemaLink.kind_of_end {known : String → Bool} {l : Link} (h : SchemaLink known l) {i : Identity}
    (hend : l.source = i ∨ l.target = i) (hi : i.1.isSchema = false) : l.kind = .backs := by
  cases h with
  | backs => rfl
  | _ => rcases hend with rfl | rfl <;> exact absurd hi (by simp [NodeKind.isSchema])

/-- A node that is not of the schema is defined, cited or left over. -/
theorem Traces.classify {I : String → Prop} {D : String → Identity → Prop} {g : Graph} (h : Traces I D g)
    (hg : g.WellFormed) (hheld : g.AllHeld) {n : Node} (hn : n ∈ g.nodes) (hkind : n.kind.isSchema = false) :
    (∃ a, n.anchor = some a ∧ (D a.path n.identity ∨ (n.kind = .file ∧ a.path = n.key ∧ I n.key))) ∨
      Cited I g n.identity ∨ Leftover g n := by
  cases ha : n.anchor with
  | some a =>
      left
      refine ⟨a, rfl, ?_⟩
      rcases defining_or_file hkind with hk | hk
      · exact Or.inl (h.symbols n hn hk a ha)
      · exact Or.inr ⟨hk, h.files n hn hk a ha⟩
  | none =>
      right
      by_cases hcited : Cited I g n.identity
      · exact Or.inl hcited
      · refine Or.inr ⟨ha, h.placeholders n hn hkind ha, ?_⟩
        intro e he hend
        obtain ⟨l, hjoin⟩ := hg.exists_joins he
        have hlink : l.source = n.identity ∨ l.target = n.identity := by
          rcases hend with hs | ht
          · left
            have hname := hjoin.2.1
            rw [hs] at hname
            exact hname.identity_eq hg (Graph.names_of_mem hn)
          · right
            have hname := hjoin.2.2
            rw [ht] at hname
            exact hname.identity_eq hg (Graph.names_of_mem hn)
        have hschema : ∀ x ∈ e.holders, x = Schema.origin ∧ ∃ known, SchemaLink known l := by
          intro x hx
          rcases h.holders l x ⟨e, he, hjoin, hx⟩ with hI | hs
          · exact absurd ⟨l, x, ⟨e, he, hjoin, hx⟩, hI, hlink⟩ hcited
          · exact hs
        obtain ⟨x, hx⟩ := hheld e he
        obtain ⟨_, known, hl⟩ := hschema x hx
        exact ⟨hjoin.1.trans (hl.kind_of_end hlink hkind), fun x hx => (hschema x hx).1⟩

/-! ## The unit of a file -/

section

variable {I I' : String → Prop} {D D' : String → Identity → Prop} {path : String} {g : Graph} {cache : BuildCache}
  {c : Catalog} {statements : List Statement}

/-- The statements of a file speak of what the file defines. -/
structure FileWrites (path : String) (I : String → Prop) (D : String → Identity → Prop)
    (statements : List Statement) : Prop where
  nodes : ∀ n, Statement.declare n ∈ statements → n.DefinedIn path ∧
    ((definingKind? n.kind).isSome = true → D path n.identity) ∧ (n.kind = .file → n.key = path ∧ I path)
  defines : ∀ p i, Relates statements ⟨.defines, (.file, p), i⟩ → p = path ∧ D path i
  indexed : ∀ l, Relates statements l → I path

theorem fileWrites_nil : FileWrites path I D [] :=
  ⟨fun n hn => absurd hn (by simp), fun p i ⟨_, _, h⟩ => absurd h (by simp), fun l ⟨_, _, h⟩ => absurd h (by simp)⟩

theorem fileWrites_fileStatements {category : Category} {o : Outline} {built : Identity → Bool} {known : String → Bool}
    (hI : I path) (hD : ∀ i, Defines o i → D path i) :
    FileWrites path I D (fileStatements path category o built known) := by
  refine ⟨?_, ?_, fun _ _ => hI⟩
  · intro n hn
    have hnode := declare_mem_fileStatements.1 hn
    refine ⟨hnode.definedIn, ?_⟩
    cases hnode with
    | file => exact ⟨fun h => absurd h (by simp [fileNode, definingKind?]), fun _ => ⟨rfl, hI⟩⟩
    | declaration d i hd hi => exact ⟨fun _ => hD i ⟨d, hd, hi⟩, fun h => absurd h (nodeOf?_kind hi).2.2.2⟩
  · rintro p i ⟨locations, metadata, hmem⟩
    obtain ⟨rfl, d, hd, hi, _⟩ := fileLink_defines (fileLink_of_mem hmem) rfl
    exact ⟨rfl, hD i ⟨d, hd, hi⟩⟩

/-- The other files stay indexed and go on defining what they do. -/
structure Extends (path : String) (I I' : String → Prop) (D D' : String → Identity → Prop) : Prop where
  indexed : ∀ q, q ≠ path → I q → I' q
  defines : ∀ q i, q ≠ path → D q i → D' q i

theorem defines_fileUnit (hw : (start path g cache).Sound) (hwrites : FileWrites path I' D' statements)
    (hext : Extends path I I' D D') (h : Traces I D g) {q : String} {i : Identity} {x : String}
    (hx : (unit c path g cache (g.anchoredTo path) statements).graph.Holds ⟨.defines, (.file, q), i⟩ x) :
    x = q ∧ D' q i := by
  rcases (holds_unit hw List.filter_sublist c statements _ x).1 hx with ⟨hne, hx⟩ | ⟨rfl, hrel⟩
  · obtain ⟨rfl, hD⟩ := h.defines q i x hx
    exact ⟨rfl, hext.defines x i hne hD⟩
  · obtain ⟨rfl, hD⟩ := hwrites.defines q i hrel
    exact ⟨rfl, hD⟩

/-- An anchor of a class, module or method after the unit of a file. -/
theorem symbol_fileUnit (hw : (start path g cache).Sound) (hheld : g.AllHeld)
    (hwrites : FileWrites path I' D' statements) (hext : Extends path I I' D D') (h : Traces I D g) {m : Node}
    (hm : m ∈ (unit c path g cache (g.anchoredTo path) statements).graph.nodes)
    (hkind : (definingKind? m.kind).isSome = true) {a : Anchor} (ha : m.anchor = some a) : D' a.path m.identity := by
  have hp : (g.anchoredTo path).Sublist g.nodes := List.filter_sublist
  cases emerges_unit hw hp hm with
  | declared n mem stored =>
      obtain ⟨hdef, hD, _⟩ := hwrites.nodes n mem
      rw [hdef.path_eq stored ha, stored, NewNode.stored_identity]
      rw [stored] at hkind
      exact hD hkind
  | kept mem _ other =>
      refine hext.defines a.path _ ?_ (h.symbols m mem hkind a ha)
      exact fun hpath => other ((mem_anchoredTo hw.graph mem path).2 ⟨a, ha, hpath⟩)
  | referred _ _ stored _ _ _ =>
      rw [stored] at ha
      exact absurd ha (by simp [NewNode.stored, Graph.placeholder])
  | moved _ _ _ _ _ _ d p _ defined definition stored =>
      -- the edge by which the other file was found is held, so it is an edge of that file
      obtain ⟨e, he, hk, htarget, hsource, _⟩ := defined
      obtain ⟨x, hx⟩ := allHeld_unit hw hp c statements hheld e he
      rw [definition.path_eq stored ha]
      refine (defines_fileUnit hw hwrites hext h ⟨e, he, ⟨hk, hsource, ?_⟩, hx⟩).2
      rw [htarget]
      exact Graph.names_of_mem hm
  | demoted n _ _ _ _ _ eq =>
      rw [eq] at ha
      exact absurd ha (by simp [Node.demoted])

/-- An anchor of a file node after the unit of a file. -/
theorem file_fileUnit (hw : (start path g cache).Sound) (hwrites : FileWrites path I' D' statements)
    (hext : Extends path I I' D D') (h : Traces I D g) {m : Node}
    (hm : m ∈ (unit c path g cache (g.anchoredTo path) statements).graph.nodes) (hkind : m.kind = .file) {a : Anchor}
    (ha : m.anchor = some a) : a.path = m.key ∧ I' m.key := by
  cases emerges_unit hw List.filter_sublist hm with
  | declared n mem stored =>
      obtain ⟨hdef, _, hfile⟩ := hwrites.nodes n mem
      have hkey : m.key = n.key := by rw [stored]; rfl
      have hnkind : n.kind = .file := by rw [← hkind, stored]; rfl
      obtain ⟨hnkey, hI⟩ := hfile hnkind
      rw [hdef.path_eq stored ha, hkey, hnkey]
      exact ⟨rfl, hI⟩
  | kept mem _ other =>
      obtain ⟨hkey, hI⟩ := h.files m mem hkind a ha
      refine ⟨hkey, hext.indexed m.key ?_ hI⟩
      exact fun hpath => other ((mem_anchoredTo hw.graph mem path).2 ⟨a, ha, hkey.trans hpath⟩)
  | referred _ _ stored _ _ _ =>
      rw [stored] at ha
      exact absurd ha (by simp [NewNode.stored, Graph.placeholder])
  | moved _ _ _ _ _ kind _ _ _ _ _ _ =>
      rw [hkind] at kind
      exact absurd kind (by simp [definingKind?])
  | demoted n _ _ _ _ _ eq =>
      rw [eq] at ha
      exact absurd ha (by simp [Node.demoted])

/-- A node without an anchor after the unit of a file. -/
theorem placeholder_fileUnit (hw : (start path g cache).Sound) (hwrites : FileWrites path I' D' statements)
    (h : Traces I D g) {m : Node} (hm : m ∈ (unit c path g cache (g.anchoredTo path) statements).graph.nodes)
    (hkind : m.kind.isSchema = false) (ha : m.anchor = none) : m.isInferred = true := by
  cases emerges_unit hw List.filter_sublist hm with
  | declared n mem stored => exact absurd ha ((hwrites.nodes n mem).1.anchor_ne_none stored)
  | kept mem _ _ => exact h.placeholders m mem hkind ha
  | referred _ _ stored _ _ _ =>
      rw [stored]
      exact Node.isInferred_placeholder _ _ _
  | moved _ _ _ _ _ _ d _ _ _ definition stored => exact absurd ha (definition.anchor_ne_none stored)
  | demoted n mem _ _ _ _ eq =>
      rw [eq]
      exact Node.isInferred_demoted (h.isRecord n mem)

theorem traces_fileUnit (hw : (start path g cache).Sound) (hheld : g.AllHeld) (c : Catalog)
    (hwrites : FileWrites path I' D' statements) (hext : Extends path I I' D D') (h : Traces I D g) :
    Traces I' D' (unit c path g cache (g.anchoredTo path) statements).graph := by
  have hp : (g.anchoredTo path).Sublist g.nodes := List.filter_sublist
  refine ⟨isRecord_unit hw hp (fun n hn => (hwrites.nodes n hn).1.isRecord) h.isRecord, ?_, ?_, ?_, ?_, ?_, ?_⟩
  · refine fromSchema_unit hw hp (fun n hn hsource => ?_) h.fromSchema
    rw [(hwrites.nodes n hn).1.source] at hsource
    exact absurd hsource (by simp)
  · exact fun m hm hkind a ha => symbol_fileUnit hw hheld hwrites hext h hm hkind ha
  · exact fun m hm hkind a ha => file_fileUnit hw hwrites hext h hm hkind ha
  · exact fun m hm hkind ha => placeholder_fileUnit hw hwrites h hm hkind ha
  · exact fun q i x hx => defines_fileUnit hw hwrites hext h hx
  · intro l x hx
    rcases (holds_unit hw hp c statements l x).1 hx with ⟨hne, hx⟩ | ⟨rfl, hrel⟩
    · rcases h.holders l x hx with hI | hs
      · exact Or.inl (hext.indexed x hne hI)
      · exact Or.inr hs
    · exact Or.inl (hwrites.indexed l hrel)

/-! ## The unit of the schema -/

/-- The unit of the schema writes links of the schema only. -/
def SchemaWrites (g : Graph) (statements : List Statement) : Prop :=
  SchemaSays g statements ∧ ∀ l, Relates statements l → ∃ known, SchemaLink known l

theorem schemaWrites_statements (hg : g.WellFormed) (s : Schema) :
    SchemaWrites g (schemaStatements s fun c => (g.nodeId? .classDecl c).isSome) :=
  ⟨schemaSays_statements hg s, fun _ ⟨_, _, h⟩ => ⟨_, schemaLink_of_mem h⟩⟩

theorem traces_schemaUnit (hw : (start Schema.origin g cache).Sound) (c : Catalog) (hwrites : SchemaWrites g statements)
    (h : Traces I D g) :
    Traces I D (unit c Schema.origin g cache (g.bySource .fromSchema) statements).graph := by
  have hp : (g.bySource .fromSchema).Sublist g.nodes := List.filter_sublist
  obtain ⟨hwords, hlinks⟩ := hwrites
  have hold : ∀ m ∈ (unit c Schema.origin g cache (g.bySource .fromSchema) statements).graph.nodes,
      m.kind.isSchema = false → m ∈ g.nodes := fun m hm hkind =>
    mem_of_mem_schemaUnit hw hwords h.fromSchema hm hkind
  have hkinds : ∀ k : NodeKind, ((definingKind? k).isSome = true ∨ k = .file) → k.isSchema = false := by
    intro k hk
    cases k <;> simp_all [definingKind?, NodeKind.isSchema]
  refine ⟨?_, ?_, ?_, ?_, ?_, ?_, ?_⟩
  · refine isRecord_unit hw hp (fun n hn => ?_) h.isRecord
    obtain ⟨fields, hfields⟩ := (hwords.nodes n hn).isRecord
    rw [hfields]
    exact Json.isRecord_record fields
  · exact fromSchema_unit hw hp (fun n hn _ => (hwords.nodes n hn).kind) h.fromSchema
  · exact fun m hm hkind a ha => h.symbols m (hold m hm (hkinds _ (Or.inl hkind))) hkind a ha
  · exact fun m hm hkind a ha => h.files m (hold m hm (hkinds _ (Or.inr hkind))) hkind a ha
  · exact fun m hm hkind ha => h.placeholders m (hold m hm hkind) hkind ha
  · intro path i x hx
    rcases (holds_unit hw hp c statements _ x).1 hx with ⟨_, hx⟩ | ⟨_, hrel⟩
    · exact h.defines path i x hx
    · exact absurd rfl (hwords.ends _ hrel).1
  · intro l x hx
    rcases (holds_unit hw hp c statements l x).1 hx with ⟨_, hx⟩ | ⟨rfl, hrel⟩
    · exact h.holders l x hx
    · exact Or.inr ⟨rfl, hlinks l hrel⟩

/-! ## As long as files are only added -/

/-- Every placeholder of a file, class, module or method is cited by an indexed file. -/
def Attached (I : String → Prop) (g : Graph) : Prop :=
  ∀ n ∈ g.nodes, n.kind.isSchema = false → n.anchor = none → Cited I g n.identity

/-- The unit of the schema leaves every placeholder cited. -/
theorem attached_schemaUnit (hw : (start Schema.origin g cache).Sound) (c : Catalog)
    (hwrites : SchemaWrites g statements) (horigin : ¬ I Schema.origin) (h : Traces I D g) (hattached : Attached I g) :
    Attached I (unit c Schema.origin g cache (g.bySource .fromSchema) statements).graph := by
  have hp : (g.bySource .fromSchema).Sublist g.nodes := List.filter_sublist
  intro m hm hkind ha
  obtain ⟨l, x, hx, hI, hend⟩ := hattached m (mem_of_mem_schemaUnit hw hwrites.1 h.fromSchema hm hkind) hkind ha
  have hne : x ≠ Schema.origin := fun heq => horigin (heq ▸ hI)
  exact ⟨l, x, (holds_unit hw hp c statements l x).2 (Or.inl ⟨hne, hx⟩), hI, hend⟩

end

end CodeAtlas.Projection
