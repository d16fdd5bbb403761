import CodeAtlas.Outline.Reader
import CodeAtlas.Proofs.Indexing.Leftovers
import CodeAtlas.Proofs.Outline.Shape
import CodeAtlas.Proofs.Text.Parts
/-!
# Names of a definition in the catalog and in the graph

A class, a module or a method is stored twice: as a symbol, which is shown under its qualified name, and as a node under
its key. For methods the two agree. For classes and modules they agree on the outermost ones only: the name that is read
is the full one already, and the qualified name puts the enclosing name before it once more
(`qualifiedName_eq_key_iff`).
-/

namespace CodeAtlas.Indexing

open Projection

theorem bareName_of_bare {s : Declaration} (h : '.' ∉ s.name.toList) : s.bareName = s.name := by
  unfold Declaration.bareName
  split
  · next rest hafter =>
      rw [Text.after?_eq_some_iff] at hafter
      exact absurd (hafter ▸ List.mem_append_left rest (by decide)) h
  · rfl

section

variable {path : String} {s : Declaration} {id : Option Int}

/-- The qualified name of a method on instances is its key. -/
theorem qualifiedName_method (hkind : s.kind = .method) (hname : '.' ∉ s.name.toList) (hself : s.isClassMethod = false) :
    Symbol.qualifiedName { symbolOf path s with id := id } = methodKey s := by
  rw [methodKey, bareName_of_bare hname, hself, Symbol.qualifiedName]
  simp only [symbolOf, hkind]
  rfl

/-- The qualified name of a class or module is its name only if nothing encloses it. -/
theorem qualifiedName_container (hkind : s.kind ≠ .method) :
    Symbol.qualifiedName { symbolOf path s with id := id } =
      s.enclosing.elim s.name fun outer => outer ++ "::" ++ s.name := by
  rw [Symbol.qualifiedName]
  simp only [symbolOf, hkind, if_false]
  cases s.enclosing <;> rfl

end

variable {d : Desk} {s : Declaration}

/-- What is declared has its row and its node once its file is committed. -/
theorem exists_row_node (hd : d.Sound) (now : Int) (file : PendingFile) {o : Outline} (hs : s ∈ o.declarations) {i : Identity}
    (hi : nodeOf? s = some i) :
    ∃ row ∈ (commitFile now d file o).1.store.catalog.symbolsIn file.path,
      ∃ node ∈ (commitFile now d file o).1.store.graph.nodes,
        row = { symbolOf file.path s with id := row.id } ∧ node.identity = i := by
  obtain ⟨c, hafter, -, -, hstores, -⟩ := commitFile_eq hd now file o
  obtain ⟨owned, howned, id, hrow⟩ := hstores s hs
  have hdeclares : Declares ((fileChange file o).statements ⟨d.store.graph, d.cache⟩) i :=
    (declares_fileStatements i).2 (Or.inr ⟨s, hs, hi⟩)
  obtain ⟨nodeId, node, hnode, -, hidentity⟩ :=
    has_unit_of_declares (hd.start file.path) (previous_sublist (fileChange file o) d.store.graph) c hdeclares
  rw [hafter]
  refine ⟨owned.symbol, ?_, node, hnode, ?_, hidentity⟩
  · rw [Catalog.symbolsIn, List.mem_mergeSort, List.mem_filter]
    refine ⟨List.mem_map_of_mem howned, ?_⟩
    rw [hrow]
    simp
  · rw [hrow]
    rfl

/-- What the reader finds in a text and a commit stores. The row and the node of a method on instances have one name;
those of a class or module have one if and only if nothing encloses it, and otherwise the row repeats the enclosing
name. -/
theorem qualifiedName_eq_key_iff (hd : d.Sound) (now : Int) (file : PendingFile)
    (hs : s ∈ (Outline.ofSource file.text).declarations)
    (hkind : s.kind.isContainer = true ∨ s.kind = .method ∧ s.isClassMethod = false) :
    ∃ row ∈ (commitFile now d file (.ofSource file.text)).1.store.catalog.symbolsIn file.path,
      ∃ node ∈ (commitFile now d file (.ofSource file.text)).1.store.graph.nodes,
        row = { symbolOf file.path s with id := row.id } ∧ nodeOf? s = some node.identity ∧
        (row.qualifiedName = node.key ↔ s.kind = .method ∨ s.enclosing = none) ∧
        (s.kind.isContainer = true → ∀ outer, s.enclosing = some outer →
          row.qualifiedName = outer ++ "::" ++ node.key) := by
  have hprojected : (nodeOf? s).isSome = true := by
    rw [nodeOf?_isSome_iff]
    rcases hkind with hcontainer | ⟨hmethod, -⟩
    · cases hk : s.kind <;> simp_all [SymbolKind.isContainer, SymbolKind.isProjected]
    · rw [hmethod]
      rfl
  obtain ⟨i, hi⟩ := Option.isSome_iff_exists.1 hprojected
  obtain ⟨row, hrow, node, hnode, heq, hidentity⟩ := exists_row_node hd now file hs hi
  refine ⟨row, hrow, node, hnode, heq, hidentity ▸ hi, ?_⟩
  rw [show node.key = i.2 from congrArg Prod.snd hidentity, heq]
  rcases hkind with hcontainer | ⟨hmethod, hself⟩
  · have hne : s.kind ≠ .method := by
      intro h
      rw [h] at hcontainer
      exact absurd hcontainer (by decide)
    have hkey : i.2 = s.name := by
      unfold nodeOf? at hi
      split at hi
      · rw [← Option.some.inj hi]
      · rw [← Option.some.inj hi]
      · next hmethod => exact absurd hmethod hne
      · exact absurd hi (by simp)
    rw [qualifiedName_container hne, hkey]
    cases s.enclosing with
    | none => simp
    | some outer => simp [hne]
  · have hkey : i.2 = methodKey s := by
      simp only [nodeOf?, hmethod, Option.some.injEq] at hi
      rw [← hi]
    rw [qualifiedName_method hmethod (Outline.bare_of_mem_ofSource hs hmethod) hself, hkey, hmethod]
    simp [SymbolKind.isContainer]

/-- A class in a module. -/
def nestedFile : PendingFile :=
  { path := "a.rb", text := "module A\n  class B\n  end\nend\n", fingerprint := "", modified := none }

/-- The class of `nestedFile` as it is read. -/
def nestedClass : Declaration :=
  { name := "A::B", kind := .classDecl, enclosing := some "A", startLine := 2, endLine := 3, signature := some "class B" }

/-- An index that holds nothing yet. -/
def emptyDesk : Desk := { store := ({} : Store).clear }

theorem sound_emptyDesk : emptyDesk.Sound := standing_clear {}

theorem mem_nestedFile : nestedClass ∈ (Outline.ofSource nestedFile.text).declarations := by decide +kernel

/-- The row of the nested class is shown as `A::A::B`, and its node has the key `A::B`. -/
theorem exists_qualifiedName_ne_key :
    nestedClass ∈ (Outline.ofSource nestedFile.text).declarations ∧
      ∃ row ∈ (commitFile 0 emptyDesk nestedFile (.ofSource nestedFile.text)).1.store.catalog.symbolsIn nestedFile.path,
        ∃ node ∈ (commitFile 0 emptyDesk nestedFile (.ofSource nestedFile.text)).1.store.graph.nodes,
          row = { symbolOf nestedFile.path nestedClass with id := row.id } ∧
          nodeOf? nestedClass = some node.identity ∧ row.qualifiedName ≠ node.key := by
  have hnode : nodeOf? nestedClass = some (.classDecl, "A::B") := rfl
  have hstored := exists_row_node sound_emptyDesk 0 nestedFile mem_nestedFile hnode
  obtain ⟨row, hrow, node, hmem, heq, hidentity⟩ := hstored
  refine ⟨mem_nestedFile, row, hrow, node, hmem, heq, hidentity ▸ hnode, ?_⟩
  rw [show node.key = "A::B" from congrArg Prod.snd hidentity, heq,
    qualifiedName_container (by decide : nestedClass.kind ≠ .method)]
  decide

theorem qualifiedName_eq_key_iff_nested :
    ∃ row ∈ (commitFile 0 emptyDesk nestedFile (.ofSource nestedFile.text)).1.store.catalog.symbolsIn nestedFile.path,
      ∃ node ∈ (commitFile 0 emptyDesk nestedFile (.ofSource nestedFile.text)).1.store.graph.nodes,
        row = { symbolOf nestedFile.path nestedClass with id := row.id } ∧ nodeOf? nestedClass = some node.identity ∧
        (row.qualifiedName = node.key ↔ nestedClass.kind = .method ∨ nestedClass.enclosing = none) ∧
        (nestedClass.kind.isContainer = true → ∀ outer, nestedClass.enclosing = some outer →
          row.qualifiedName = outer ++ "::" ++ node.key) :=
  qualifiedName_eq_key_iff sound_emptyDesk 0 nestedFile mem_nestedFile (Or.inl rfl)

end CodeAtlas.Indexing
