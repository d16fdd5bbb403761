import CodeAtlas.Proofs.Projection.History
import CodeAtlas.Proofs.Projection.Provenance
/-!
# Which nodes are anchored

A node of a class, module or method is anchored exactly if the last outline of some file declares it, to such a file,
and a file node exactly if the file has said something that was not taken back; all other nodes of these kinds are
placeholders. The invariant `Accounts` ties the anchors to the `defines` edges by which a unit finds another file that
defines a node it drops, and to their locations, which give the line.
-/

namespace CodeAtlas.Projection

/-- What each file has said last. -/
abbrev Sayings := String → Option (Category × Outline)

/-- The last outline of a file declares a node. -/
def DefinedBy (S : Sayings) (path : String) (i : Identity) : Prop :=
  ∃ category o, S path = some (category, o) ∧ Defines o i

/-- The lines of an outline have 32 bits. -/
def ShortLines (o : Outline) : Prop := ∀ d ∈ o.declarations, d.startLine < UInt32.size

/-- The `defines` edges of files are those of what they have said, and give a line each. -/
structure EdgeAccount (S : Sayings) (g : Graph) : Prop where
  defines : ∀ path i x, g.Holds ⟨.defines, (.file, path), i⟩ x ↔ x = path ∧ DefinedBy S path i
  lines : ∀ e ∈ g.edges, ∀ path i, g.Joins e ⟨.defines, (.file, path), i⟩ →
    ∃ line, e.locations.findSome? locationLine? = some line

/-- A node of a class, module or method is anchored to a file that defines it, or nothing does and it is a
placeholder. -/
structure SymbolAccount (S : Sayings) (n : Node) : Prop where
  anchored : ∀ a, n.anchor = some a → DefinedBy S a.path n.identity ∧ n.isInferred = false
  unanchored : n.anchor = none → n.isInferred = true ∧ ∀ path, ¬ DefinedBy S path n.identity

/-- A file node is anchored to the file itself, or the file has said nothing and it is a placeholder. -/
structure FileAccount (S : Sayings) (n : Node) : Prop where
  anchored : ∀ a, n.anchor = some a → a.path = n.key ∧ (S n.key).isSome = true ∧ n.isInferred = false
  unanchored : n.anchor = none → n.isInferred = true ∧ S n.key = none

/-- The nodes of a graph are as the files have said. -/
structure NodeAccount (S : Sayings) (g : Graph) : Prop where
  isRecord : ∀ n ∈ g.nodes, n.metadata.IsRecord
  fromSchema : ∀ n ∈ g.nodes, n.source = .fromSchema → n.kind.isSchema = true
  symbols : ∀ n ∈ g.nodes, (definingKind? n.kind).isSome = true → SymbolAccount S n
  files : ∀ n ∈ g.nodes, n.kind = .file → FileAccount S n
  present : ∀ path, (S path).isSome = true → g.Has (.file, path)

/-- The graph is as the files have said. -/
structure Accounts (S : Sayings) (g : Graph) : Prop where
  edges : EdgeAccount S g
  nodes : NodeAccount S g

/-- A `defines` edge of a file leads to a node exactly if the file defines it. -/
theorem EdgeAccount.definedIn_iff {S : Sayings} {g : Graph} (h : EdgeAccount S g) (hg : g.WellFormed)
    (hheld : g.AllHeld) {id : Int} {i : Identity} (hid : g.Names id i) (path : String) :
    g.DefinedIn id path ↔ DefinedBy S path i := by
  constructor
  · rintro ⟨e, he, hk, rfl, hsource, _⟩
    obtain ⟨x, hx⟩ := hheld e he
    exact ((h.defines path i x).1 ⟨e, he, ⟨hk, hsource, hid⟩, hx⟩).2
  · intro hdef
    obtain ⟨e, he, hjoin, _⟩ := (h.defines path i path).2 ⟨rfl, hdef⟩
    obtain ⟨line, hline⟩ := h.lines e he path i hjoin
    exact ⟨e, he, hjoin.1, hjoin.2.2.id_eq hg hid, hjoin.2.1, line, hline⟩

/-- A node that a file defines is there. -/
theorem EdgeAccount.has_of_definedBy {S : Sayings} {g : Graph} (h : EdgeAccount S g) {path : String} {i : Identity}
    (hdef : DefinedBy S path i) : g.Has i := by
  obtain ⟨e, _, hjoin, _⟩ := (h.defines path i path).2 ⟨rfl, hdef⟩
  exact ⟨_, hjoin.2.2⟩

/-! ## What a file says -/

/-- The statements of a file that has said `v`. -/
structure FileSays (path : String) (v : Option (Category × Outline)) (statements : List Statement) : Prop where
  declares : ∀ i, Declares statements i ↔ ∃ category o, v = some (category, o) ∧ (i = (.file, path) ∨ Defines o i)
  nodes : ∀ n, Statement.declare n ∈ statements → n.DefinedIn path
  relates : ∀ category o i, v = some (category, o) → Defines o i → Relates statements ⟨.defines, (.file, path), i⟩
  links : ∀ p i locations metadata, Statement.relate ⟨.defines, (.file, p), i⟩ locations metadata ∈ statements →
    p = path ∧ (∃ category o, v = some (category, o) ∧ Defines o i) ∧
      ∃ line, locations.findSome? locationLine? = some line

theorem fileSays_project {path : String} {category : Category} {o : Outline} (hlines : ShortLines o)
    (built : Identity → Bool) (known : String → Bool) :
    FileSays path (some (category, o)) (fileStatements path category o built known) := by
  refine ⟨?_, ?_, ?_, ?_⟩
  · intro i
    rw [declares_fileStatements]
    constructor
    · exact fun h => ⟨category, o, rfl, h⟩
    · rintro ⟨_, _, h, hi⟩
      rw [Option.some.injEq, Prod.mk.injEq] at h
      obtain ⟨rfl, rfl⟩ := h
      exact hi
  · intro n hn
    exact (declare_mem_fileStatements.1 hn).definedIn
  · intro category' o' i h hi
    rw [Option.some.injEq, Prod.mk.injEq] at h
    obtain ⟨rfl, rfl⟩ := h
    exact relates_defines hi
  · intro p i locations metadata hmem
    obtain ⟨rfl, d, hd, hi, rfl⟩ := fileLink_defines (fileLink_of_mem hmem) rfl
    refine ⟨rfl, ⟨category, o, rfl, d, hd, hi⟩, d.startLine, ?_⟩
    simp [locationOf, locationLine?_lineOf p (hlines d hd)]

theorem fileSays_retract (path : String) : FileSays path none [] := by
  refine ⟨fun i => ?_, fun n hn => absurd hn (by simp), fun _ _ _ h => absurd h (by simp),
    fun _ _ _ _ h => absurd h (by simp)⟩
  simp [Declares]

/-! ## Nodes as they are written -/

theorem symbolAccount_of_definedIn {n : NewNode} {path : String} (h : n.DefinedIn path) {S : Sayings} {m : Node}
    (hm : m = n.stored m.id) (hdef : DefinedBy S path m.identity) : SymbolAccount S m := by
  refine ⟨?_, fun hnone => absurd hnone (h.anchor_ne_none hm)⟩
  intro a ha
  rw [h.path_eq hm ha]
  refine ⟨hdef, ?_⟩
  rw [hm]
  exact h.notInferred _

theorem fileAccount_of_definedIn {n : NewNode} {path : String} (h : n.DefinedIn path) {S : Sayings} {m : Node}
    (hm : m = n.stored m.id) (hkey : m.key = path) (hsaid : (S path).isSome = true) : FileAccount S m := by
  refine ⟨?_, fun hnone => absurd hnone (h.anchor_ne_none hm)⟩
  intro a ha
  rw [h.path_eq hm ha, hkey]
  refine ⟨rfl, hsaid, ?_⟩
  rw [hm]
  exact h.notInferred _

/-- A node without an anchor that nothing defines. -/
theorem symbolAccount_of_inferred {S : Sayings} {m : Node} (hanchor : m.anchor = none) (hinferred : m.isInferred = true)
    (hdef : ∀ path, ¬ DefinedBy S path m.identity) : SymbolAccount S m := by
  refine ⟨fun a ha => ?_, fun _ => ⟨hinferred, hdef⟩⟩
  rw [hanchor] at ha
  exact absurd ha (by simp)

theorem fileAccount_of_inferred {S : Sayings} {m : Node} (hanchor : m.anchor = none) (hinferred : m.isInferred = true)
    (hsaid : S m.key = none) : FileAccount S m := by
  refine ⟨fun a ha => ?_, fun _ => ⟨hinferred, hsaid⟩⟩
  rw [hanchor] at ha
  exact absurd ha (by simp)

/-! ## The unit of a file -/

section

variable {S S' : Sayings} {path : String} {v : Option (Category × Outline)} {g : Graph} {cache : BuildCache}
  {c : Catalog} {statements : List Statement}

/-- What a file has said changes, and nothing else. -/
structure Revises (S S' : Sayings) (path : String) (v : Option (Category × Outline)) : Prop where
  self : S' path = v
  other : ∀ q, q ≠ path → S' q = S q

theorem Revises.definedBy_of_ne (h : Revises S S' path v) {q : String} (hq : q ≠ path) (i : Identity) :
    DefinedBy S' q i ↔ DefinedBy S q i := by
  simp only [DefinedBy, h.other q hq]

/-- The file that is changed defines exactly what its statements declare, the file node apart. -/
theorem Revises.definedBy_self (h : Revises S S' path v) (hwords : FileSays path v statements) {i : Identity}
    (hi : i.1 ≠ .file) : DefinedBy S' path i ↔ Declares statements i := by
  rw [hwords.declares]
  simp only [DefinedBy, h.self]
  constructor
  · rintro ⟨category, o, hv, hdef⟩
    exact ⟨category, o, hv, Or.inr hdef⟩
  · rintro ⟨category, o, hv, rfl | hdef⟩
    · exact absurd rfl hi
    · exact ⟨category, o, hv, hdef⟩

/-- The file that is changed has said something exactly if its statements declare its node. -/
theorem Revises.isSome_self (h : Revises S S' path v) (hwords : FileSays path v statements) :
    (S' path).isSome = true ↔ Declares statements (.file, path) := by
  rw [hwords.declares, h.self]
  constructor
  · intro hsome
    obtain ⟨⟨category, o⟩, hv⟩ := Option.isSome_iff_exists.1 hsome
    exact ⟨category, o, hv, Or.inl rfl⟩
  · rintro ⟨category, o, hv, _⟩
    rw [hv]
    rfl

theorem edgeAccount_fileUnit (hw : (start path g cache).Sound) (hwords : FileSays path v statements)
    (hrev : Revises S S' path v) (h : EdgeAccount S g) :
    EdgeAccount S' (unit c path g cache (g.anchoredTo path) statements).graph := by
  have hp : (g.anchoredTo path).Sublist g.nodes := List.filter_sublist
  refine ⟨?_, ?_⟩
  · intro q i x
    rw [holds_unit hw hp, h.defines]
    constructor
    · rintro (⟨hx, rfl, hdef⟩ | ⟨rfl, locations, metadata, hmem⟩)
      · exact ⟨rfl, (hrev.definedBy_of_ne hx i).2 hdef⟩
      · obtain ⟨rfl, ⟨category, o, hv, hdef⟩, _⟩ := hwords.links q i locations metadata hmem
        exact ⟨rfl, category, o, hrev.self.trans hv, hdef⟩
    · rintro ⟨rfl, hdef⟩
      by_cases hx : x = path
      · subst hx
        obtain ⟨category, o, hv, hdef⟩ := hdef
        exact Or.inr ⟨rfl, hwords.relates category o i (hrev.self.symm.trans hv) hdef⟩
      · exact Or.inl ⟨hx, rfl, (hrev.definedBy_of_ne hx i).1 hdef⟩
  · intro e he q i hjoin
    rcases mem_edges_unit hw hp he hjoin with ⟨metadata, hmem⟩ | ⟨_, e₀, he₀, hjoin₀, hsame⟩
    · exact (hwords.links q i _ metadata hmem).2.2
    · rw [← hsame]
      exact h.lines e₀ he₀ q i hjoin₀

/-- The node of a class, module or method after the unit of a file. -/
theorem symbolAccount_fileUnit (hw : (start path g cache).Sound) (hheld : g.AllHeld)
    (hwords : FileSays path v statements) (hrev : Revises S S' path v) (h : Accounts S g) {m : Node}
    (hm : m ∈ (unit c path g cache (g.anchoredTo path) statements).graph.nodes)
    (hkind : (definingKind? m.kind).isSome = true) : SymbolAccount S' m := by
  have hp : (g.anchoredTo path).Sublist g.nodes := List.filter_sublist
  have hedges : EdgeAccount S' (unit c path g cache (g.anchoredTo path) statements).graph :=
    edgeAccount_fileUnit hw hwords hrev h.edges
  have hdefined := hedges.definedIn_iff (sound_unit hw hp c statements).graph (allHeld_unit hw hp c statements hheld)
    (Graph.names_of_mem hm)
  have hnotFile : m.identity.1 ≠ .file := by
    intro hk
    have hk' : m.kind = .file := hk
    rw [hk'] at hkind
    exact absurd hkind (by simp [definingKind?])
  have hself := hrev.definedBy_self hwords hnotFile
  cases emerges_unit hw hp hm with
  | declared n mem stored =>
      refine symbolAccount_of_definedIn (hwords.nodes n mem) stored (hself.2 ⟨n, mem, ?_⟩)
      rw [stored, NewNode.stored_identity]
  | kept mem undeclared other =>
      have hold := h.nodes.symbols m mem hkind
      refine ⟨?_, ?_⟩
      · intro a ha
        have hne : a.path ≠ path := fun hpath => other ((mem_anchoredTo hw.graph mem path).2 ⟨a, ha, hpath⟩)
        exact ⟨(hrev.definedBy_of_ne hne _).2 (hold.anchored a ha).1, (hold.anchored a ha).2⟩
      · intro hnone
        refine ⟨(hold.unanchored hnone).1, ?_⟩
        intro q hdef
        by_cases hq : q = path
        · subst hq
          exact undeclared (hself.1 hdef)
        · exact (hold.unanchored hnone).2 q ((hrev.definedBy_of_ne hq _).1 hdef)
  | referred new undeclared stored l related atEnd =>
      refine symbolAccount_of_inferred (by rw [stored]; rfl)
        (by rw [stored]; exact Node.isInferred_placeholder _ _ _) ?_
      intro q hdef
      by_cases hq : q = path
      · subst hq
        exact undeclared (hself.1 hdef)
      · exact new (h.edges.has_of_definedBy ((hrev.definedBy_of_ne hq _).1 hdef))
  | moved n mem same own undeclared kind d p elsewhere defined definition stored =>
      exact symbolAccount_of_definedIn definition stored ((hdefined p).1 defined)
  | demoted n mem own undeclared undefined referenced eq =>
      refine symbolAccount_of_inferred (by rw [eq]; rfl)
        (by rw [eq]; exact Node.isInferred_demoted (h.nodes.isRecord n mem)) ?_
      intro q hdef
      by_cases hq : q = path
      · subst hq
        exact undeclared (hself.1 hdef)
      · exact undefined hkind q hq ((hdefined q).2 hdef)

/-- A file node after the unit of a file. -/
theorem fileAccount_fileUnit (hw : (start path g cache).Sound) (hwords : FileSays path v statements)
    (hrev : Revises S S' path v) (h : Accounts S g) {m : Node}
    (hm : m ∈ (unit c path g cache (g.anchoredTo path) statements).graph.nodes) (hkind : m.kind = .file) :
    FileAccount S' m := by
  have hp : (g.anchoredTo path).Sublist g.nodes := List.filter_sublist
  have hidentity : m.identity = (.file, m.key) := by rw [Node.identity, hkind]
  -- a file that has said something declares its node
  have hnone : ¬ Declares statements m.identity → (m.key ≠ path → S m.key = none) → S' m.key = none := by
    intro hundeclared hother
    by_cases hkey : m.key = path
    · rw [hidentity, hkey, ← hrev.isSome_self hwords, Option.not_isSome_iff_eq_none] at hundeclared
      rw [hkey]
      exact hundeclared
    · rw [hrev.other _ hkey]
      exact hother hkey
  cases emerges_unit hw hp hm with
  | declared n mem stored =>
      have hn : n.identity = m.identity := by rw [stored, NewNode.stored_identity]
      obtain ⟨category, o, hv, hfile | ⟨d, _, hd⟩⟩ := (hwords.declares n.identity).1 ⟨n, mem, rfl⟩
      · rw [hn, hidentity] at hfile
        have hkey : m.key = path := congrArg Prod.snd hfile
        exact fileAccount_of_definedIn (hwords.nodes n mem) stored hkey (by rw [hrev.self, hv]; rfl)
      · rw [hn, hidentity] at hd
        exact absurd rfl (nodeOf?_kind hd).2.2.2
  | kept mem undeclared other =>
      have hold := h.nodes.files m mem hkind
      refine ⟨?_, fun hanchor => ⟨(hold.unanchored hanchor).1, hnone undeclared fun _ => (hold.unanchored hanchor).2⟩⟩
      intro a ha
      obtain ⟨hkey, hsaid, hinferred⟩ := hold.anchored a ha
      have hne : m.key ≠ path := fun hpath =>
        other ((mem_anchoredTo hw.graph mem path).2 ⟨a, ha, hkey.trans hpath⟩)
      exact ⟨hkey, by rw [hrev.other _ hne]; exact hsaid, hinferred⟩
  | referred new undeclared stored l related atEnd =>
      refine fileAccount_of_inferred (by rw [stored]; rfl) (by rw [stored]; exact Node.isInferred_placeholder _ _ _)
        (hnone undeclared fun _ => ?_)
      rw [← Option.not_isSome_iff_eq_none]
      intro hsome
      rw [hidentity] at new
      exact new (h.nodes.present m.key hsome)
  | moved n mem same own undeclared kind d p elsewhere defined definition stored =>
      rw [hkind] at kind
      exact absurd kind (by simp [definingKind?])
  | demoted n mem own undeclared undefined referenced eq =>
      refine fileAccount_of_inferred (by rw [eq]; rfl)
        (by rw [eq]; exact Node.isInferred_demoted (h.nodes.isRecord n mem)) (hnone undeclared fun hkey => ?_)
      -- the node was anchored to the file that is changed, so it is the node of that file
      obtain ⟨a, ha, hpath⟩ := (mem_anchoredTo hw.graph mem path).1 own
      have hnkind : n.kind = .file := by
        rw [← hkind, eq]
        rfl
      have hnkey : n.key = m.key := by
        rw [eq]
        rfl
      have hsame := ((h.nodes.files n mem hnkind).anchored a ha).1
      rw [hpath, hnkey] at hsame
      exact absurd hsame.symm hkey

theorem accounts_fileUnit (hw : (start path g cache).Sound) (hheld : g.AllHeld) (c : Catalog)
    (hwords : FileSays path v statements) (hrev : Revises S S' path v) (h : Accounts S g) :
    Accounts S' (unit c path g cache (g.anchoredTo path) statements).graph := by
  have hp : (g.anchoredTo path).Sublist g.nodes := List.filter_sublist
  refine ⟨edgeAccount_fileUnit hw hwords hrev h.edges, ?_, ?_, ?_, ?_, ?_⟩
  · exact isRecord_unit hw hp (fun n hn => (hwords.nodes n hn).isRecord) h.nodes.isRecord
  · refine fromSchema_unit hw hp (fun n hn hsource => ?_) h.nodes.fromSchema
    rw [(hwords.nodes n hn).source] at hsource
    exact absurd hsource (by simp)
  · exact fun m hm hkind => symbolAccount_fileUnit hw hheld hwords hrev h hm hkind
  · exact fun m hm hkind => fileAccount_fileUnit hw hwords hrev h hm hkind
  · intro q hq
    by_cases hpath : q = path
    · subst hpath
      exact has_unit_of_declares hw hp c ((hrev.isSome_self hwords).1 hq)
    · rw [hrev.other q hpath] at hq
      obtain ⟨id, n, hn, rfl, hi⟩ := h.nodes.present q hq
      refine ⟨n.id, names_unit hw hp c statements ⟨n, hn, rfl, hi⟩ ?_⟩
      intro hown
      obtain ⟨a, ha, rfl⟩ := (mem_anchoredTo hw.graph hn _).1 hown
      have hkey := ((h.nodes.files n hn (congrArg Prod.fst hi)).anchored a ha).1
      rw [show n.key = q from congrArg Prod.snd hi] at hkey
      exact hpath hkey.symm

end

/-! ## The unit of the schema -/

section

variable {S : Sayings} {g : Graph} {cache : BuildCache} {c : Catalog} {statements : List Statement}

theorem accounts_schemaUnit (hw : (start Schema.origin g cache).Sound) (c : Catalog) (hwords : SchemaSays g statements)
    (horigin : ∀ path, (S path).isSome = true → path ≠ Schema.origin) (h : Accounts S g) :
    Accounts S (unit c Schema.origin g cache (g.bySource .fromSchema) statements).graph := by
  have hp : (g.bySource .fromSchema).Sublist g.nodes := List.filter_sublist
  refine ⟨⟨?_, ?_⟩, ?_, ?_, ?_, ?_, ?_⟩
  · intro path i x
    rw [holds_unit hw hp, h.edges.defines]
    constructor
    · rintro (⟨_, hx⟩ | ⟨_, hrel⟩)
      · exact hx
      · exact absurd rfl (hwords.ends _ hrel).1
    · rintro ⟨rfl, hdef⟩
      have hsome : (S x).isSome = true := by
        obtain ⟨category, o, hsaid, _⟩ := hdef
        rw [hsaid]
        rfl
      exact Or.inl ⟨horigin x hsome, rfl, hdef⟩
  · intro e he path i hjoin
    rcases mem_edges_unit hw hp he hjoin with ⟨metadata, hmem⟩ | ⟨_, e₀, he₀, hjoin₀, hsame⟩
    · exact absurd rfl (hwords.ends _ ⟨_, metadata, hmem⟩).1
    · rw [← hsame]
      exact h.edges.lines e₀ he₀ path i hjoin₀
  · refine isRecord_unit hw hp (fun n hn => ?_) h.nodes.isRecord
    obtain ⟨fields, hfields⟩ := (hwords.nodes n hn).isRecord
    rw [hfields]
    exact Json.isRecord_record fields
  · exact fromSchema_unit hw hp (fun n hn _ => (hwords.nodes n hn).kind) h.nodes.fromSchema
  · intro m hm hkind
    have hschema : m.kind.isSchema = false := by
      by_contra hs
      rw [(definingKind?_of_isSchema (by simpa using hs)).1] at hkind
      exact absurd hkind (by simp)
    exact h.nodes.symbols m (mem_of_mem_schemaUnit hw hwords h.nodes.fromSchema hm hschema) hkind
  · intro m hm hkind
    have hschema : m.kind.isSchema = false := by rw [hkind]; rfl
    exact h.nodes.files m (mem_of_mem_schemaUnit hw hwords h.nodes.fromSchema hm hschema) hkind
  · intro path hpath
    obtain ⟨id, n, hn, rfl, hi⟩ := h.nodes.present path hpath
    refine ⟨n.id, names_unit hw hp c statements ⟨n, hn, rfl, hi⟩ ?_⟩
    intro hown
    have hschema := h.nodes.fromSchema n hn ((mem_bySource hw.graph hn _).1 hown)
    rw [show n.kind = .file from congrArg Prod.fst hi] at hschema
    exact absurd hschema (by simp [NodeKind.isSchema])

end

/-! ## Histories -/

/-- A history of files other than the schema's origin, with lines of 32 bits. -/
structure Readable (steps : List Step) : Prop where
  paths : ∀ step ∈ steps, step.change.path? ≠ some Schema.origin
  lines : ∀ step ∈ steps, ∀ path category o, step.change = .project path category o → ShortLines o

theorem Readable.init {steps : List Step} {step : Step} (h : Readable (steps ++ [step])) : Readable steps :=
  ⟨fun s hs => h.paths s (List.mem_append_left _ hs), fun s hs => h.lines s (List.mem_append_left _ hs)⟩

theorem revises_said (steps : List Step) {step : Step} {path : String} (hpath : step.change.path? = some path) :
    Revises (said steps) (said (steps ++ [step])) path (step.change.revise path (said steps path)) := by
  refine ⟨said_append steps step path, ?_⟩
  intro q hq
  rw [said_append, revise_of_ne]
  rw [hpath]
  simpa using hq.symm

theorem accounts_next {steps : List Step} {s : Session} (hs : s.Sound) {step : Step}
    (hreadable : Readable (steps ++ [step])) (h : Accounts (said steps) s.graph) :
    Accounts (said (steps ++ [step])) (step.next s).graph := by
  have hstart := hs.start step
  have hlast : step ∈ steps ++ [step] := by simp
  have horigin : ∀ path, (said steps path).isSome = true → path ≠ Schema.origin := by
    intro path hpath
    obtain ⟨⟨category, o⟩, hsaid⟩ := Option.isSome_iff_exists.1 hpath
    obtain ⟨before, hbefore, hc⟩ := exists_step_of_said hsaid
    have hne := hreadable.init.paths before hbefore
    rw [hc] at hne
    rintro rfl
    exact hne rfl
  have hsame : step.change.path? = none → said (steps ++ [step]) = said steps := by
    intro hnone
    funext path
    rw [said_append, revise_of_ne]
    rw [hnone]
    simp
  change Accounts _ (unit _ _ _ _ _ _).graph
  cases hc : step.change with
  | project path category o =>
      have hpath : step.change.path? = some path := by rw [hc]; rfl
      have hrev := revises_said steps hpath
      rw [hc, Change.revise, if_pos rfl] at hrev
      rw [hc] at hstart
      have hshort := hreadable.lines step hlast path category o hc
      simp only [Step.statements, hc]
      exact accounts_fileUnit hstart hs.held step.catalog (fileSays_project hshort _ _) hrev h
  | retract path =>
      have hpath : step.change.path? = some path := by rw [hc]; rfl
      have hrev := revises_said steps hpath
      rw [hc, Change.revise, if_pos rfl] at hrev
      rw [hc] at hstart
      simp only [Step.statements, hc]
      exact accounts_fileUnit hstart hs.held step.catalog (fileSays_retract path) hrev h
  | projectSchema schema =>
      rw [hsame (by rw [hc]; rfl)]
      rw [hc] at hstart
      simp only [Step.statements, hc, Change.statements, opening_graph]
      exact accounts_schemaUnit hstart step.catalog (schemaSays_statements hs.graph schema) horigin h
  | retractSchema =>
      rw [hsame (by rw [hc]; rfl)]
      rw [hc] at hstart
      simp only [Step.statements, hc]
      exact accounts_schemaUnit hstart step.catalog (schemaSays_nil s.graph) horigin h

theorem accounts_empty : Accounts (said []) ({} : Session).graph := by
  refine ⟨⟨?_, fun e he => absurd he (by simp)⟩, fun n hn => absurd hn (by simp), fun n hn => absurd hn (by simp),
    fun n hn => absurd hn (by simp), fun n hn => absurd hn (by simp), fun path h => absurd h (by simp)⟩
  intro path i x
  constructor
  · rintro ⟨e, he, _⟩
    exact absurd he (by simp)
  · rintro ⟨_, category, o, hsaid, _⟩
    exact absurd hsaid (by simp)

/-- After every history, a class, module or method node is anchored exactly if the last outline of some file declares
it, and then to such a file; a file node is anchored, to the file itself, exactly if the file has said something that
was not taken back. The anchored nodes are not inferred, and all others are. -/
theorem anchored_iff_defined (steps : List Step) (hreadable : Readable steps) :
    ∃ s, replay steps {} = .ok s ∧ ∀ n ∈ s.graph.nodes,
      (n.kind = .classDecl ∨ n.kind = .moduleDecl ∨ n.kind = .method →
        (n.anchor.isSome = true ↔ ∃ path, DefinedBy (said steps) path n.identity) ∧
        (∀ a, n.anchor = some a → DefinedBy (said steps) a.path n.identity ∧ n.isInferred = false) ∧
        (n.anchor = none → n.isInferred = true)) ∧
      (n.kind = .file →
        (n.anchor.isSome = true ↔ (said steps n.key).isSome = true) ∧
        (∀ a, n.anchor = some a → a.path = n.key ∧ n.isInferred = false) ∧
        (n.anchor = none → n.isInferred = true)) := by
  have hall := replay_induction (motive := fun steps s => Readable steps → Accounts (said steps) s.graph)
    (fun _ => accounts_empty) (fun steps s hsound _ ih step hr => accounts_next hsound hr (ih hr.init)) steps
  obtain ⟨s, hs, _, h⟩ := hall
  refine ⟨s, hs, ?_⟩
  intro n hn
  have hnodes := (h hreadable).nodes
  refine ⟨?_, ?_⟩
  · intro hkind
    have hdefining : (definingKind? n.kind).isSome = true := by
      rcases hkind with hk | hk | hk <;> rw [hk] <;> rfl
    have haccount := hnodes.symbols n hn hdefining
    refine ⟨?_, haccount.anchored, fun hnone => (haccount.unanchored hnone).1⟩
    cases ha : n.anchor with
    | none =>
        simp only [Option.isSome_none, Bool.false_eq_true, false_iff, not_exists]
        exact (haccount.unanchored ha).2
    | some a => simpa using ⟨a.path, (haccount.anchored a ha).1⟩
  · intro hkind
    have haccount := hnodes.files n hn hkind
    refine ⟨?_, fun a ha => ⟨(haccount.anchored a ha).1, (haccount.anchored a ha).2.2⟩,
      fun hnone => (haccount.unanchored hnone).1⟩
    cases ha : n.anchor with
    | none => simp [(haccount.unanchored ha).2]
    | some a => simpa using (haccount.anchored a ha).2.1

/-- A class that two files define passes to the second, which is still there when the first is taken back. -/
def handingOver : List Step := [
  { change := .project "user.rb" .model
      { declarations := [
          { name := "User", kind := .classDecl, startLine := 1, endLine := 2, superclass := some "Base" }] } },
  { change := .project "user_extra.rb" .model
      { declarations := [{ name := "User", kind := .classDecl, startLine := 3, endLine := 9 }] } },
  { change := .projectSchema { tables := [{ name := "users" }] } },
  { change := .retract "user.rb", renewed := true }]

theorem anchored_iff_defined_handingOver :
    Readable handingOver ∧ ∃ s, replay handingOver {} = .ok s ∧ ∀ n ∈ s.graph.nodes, n.kind = .classDecl →
      (n.anchor.isSome = true ↔ ∃ path, DefinedBy (said handingOver) path n.identity) := by
  have hreadable : Readable handingOver := by
    refine ⟨by decide, ?_⟩
    intro step hstep path category o hc d hd
    simp only [handingOver, List.mem_cons, List.not_mem_nil, or_false] at hstep
    rcases hstep with rfl | rfl | rfl | rfl
    · cases hc
      rw [List.mem_singleton.1 hd]
      decide
    · cases hc
      rw [List.mem_singleton.1 hd]
      decide
    · exact absurd hc (by simp)
    · exact absurd hc (by simp)
  obtain ⟨s, hs, h⟩ := anchored_iff_defined handingOver hreadable
  exact ⟨hreadable, s, hs, fun n hn hkind => ((h n hn).1 (Or.inl hkind)).1⟩

end CodeAtlas.Projection
