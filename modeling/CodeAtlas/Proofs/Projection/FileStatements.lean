import CodeAtlas.Projection.File
import CodeAtlas.Proofs.Projection.Build
import CodeAtlas.Proofs.Projection.Location
/-!
# What a file says

The outline of a file as a list of statements (`fileStatements`), and the proof that projecting the file carries out
exactly these (`says_writeFile`). The list depends on the state of the graph in two places only: a declaration hangs
under its enclosing class or module if that was built, and a plain `require` looks for the file under `lib`.
-/

namespace CodeAtlas.Projection

/-- The class or module that encloses a declaration, if it is among those built. -/
def ownerOf? (built : Identity → Bool) (d : Declaration) : Option Identity :=
  d.enclosing.bind fun name =>
    if built (.classDecl, name) then some (.classDecl, name)
    else if built (.moduleDecl, name) then some (.moduleDecl, name)
    else none

/-- The node of a declaration. -/
def declarationNode (path : String) (d : Declaration) (i : Identity) : NewNode :=
  { kind := i.1, key := i.2, source := .fromSource
    anchor := some ⟨path, d.startLine, d.endLine⟩, metadata := metadataOf d }

/-- Where a declaration stands. -/
def locationOf (path : String) (d : Declaration) : String := lineOf path d.startLine

/-- The superclass of a class. -/
def superclassOf? (d : Declaration) : Option String := if d.kind = .classDecl then d.superclass else none

/-- What a declaration says. -/
def declarationStatements (path : String) (built : Identity → Bool) (d : Declaration) : List Statement :=
  match nodeOf? d with
  | none => []
  | some i =>
    .declare (declarationNode path d i) ::
    .relate ⟨.defines, (.file, path), i⟩ [locationOf path d] (.obj []) ::
    (((ownerOf? built d).filter (· ≠ i)).toList.map fun owner =>
      .relate ⟨.defines, owner, i⟩ [locationOf path d] (.obj [])) ++
    ((superclassOf? d).toList.map fun name =>
      .relate ⟨.inherits, i, (.classDecl, name)⟩ [locationOf path d] (.obj []))

/-- What is built once a declaration is. -/
def builtWith (built : Identity → Bool) (d : Declaration) : Identity → Bool :=
  fun i => built i || nodeOf? d = some i

/-- What declarations say, each after those before it. -/
def declarationsStatements (path : String) : (Identity → Bool) → List Declaration → List Statement
  | _, [] => []
  | built, d :: rest =>
    declarationStatements path built d ++ declarationsStatements path (builtWith built d) rest

/-- The first class or module among declarations. -/
def containerIn? (ds : List Declaration) : Option Identity := (ds.find? (·.kind.isContainer)).bind nodeOf?

/-- The first class among declarations. -/
def classIn? (ds : List Declaration) : Option Identity := (ds.find? (·.kind = .classDecl)).bind nodeOf?

/-- What the mixed-in modules say. -/
def mixinStatements (kind : EdgeKind) (owner : Identity) (names : List String) : List Statement :=
  names.map fun name => .relate ⟨kind, owner, (.moduleDecl, name)⟩ [] (.obj [])

/-- The file that a plain `require` names, among known files. -/
def requiredFile (known : String → Bool) (required : String) : String :=
  let file := withSourceEnding required.toList
  let inLib := String.ofList ("lib/".toList ++ file)
  if known inLib then inLib else String.ofList file

/-- What the required files say; a file is known once it is required. -/
def requireStatements (path : String) : (String → Bool) → List String → List Statement
  | _, [] => []
  | known, required :: rest =>
    .relate ⟨.requires, (.file, path), (.file, requiredFile known required)⟩ [] (.obj [("require", .str required)]) ::
    requireStatements path (fun f => known f || f = requiredFile known required) rest

/-- What the files required by relative paths say. -/
def relativeStatements (path : String) (relatives : List String) : List Statement :=
  relatives.map fun relative =>
    .relate ⟨.requires, (.file, path), (.file, resolveRelative path relative)⟩ []
      (.obj [("require_relative", .str relative)])

/-- What the associations of a class say. -/
def associationStatements (path : String) (owner : Identity) (associations : List DeclaredAssociation) :
    List Statement :=
  associations.map fun a =>
    .relate ⟨a.word.edgeKind, owner, (.classDecl, associationTarget a)⟩
      (a.line.map (lineOf path)).toList
      (.record [("name", .str a.name), ("options", .obj a.options)])

/-- The node of a file. -/
def fileNode (path : String) (category : Category) (o : Outline) : NewNode :=
  { kind := .file, key := path, source := .fromSource, anchor := some ⟨path, 1, max (o.lineCount.getD 0) 1⟩
    metadata := .record [("category", .str category.name), ("line_count", .nat (max (o.lineCount.getD 0) 1))] }

/-- What a file says of itself and of what it declares and mixes in. -/
def structureStatements (path : String) (category : Category) (o : Outline) (built : Identity → Bool) :
    List Statement :=
  .declare (fileNode path category o) ::
  (declarationsStatements path (fun i => built i || i = (.file, path)) o.declarations ++
    (mixinStatements .includes ((containerIn? o.declarations).getD (.file, path)) o.includes ++
      mixinStatements .extendsModule ((containerIn? o.declarations).getD (.file, path)) o.extensions))

/-- Everything a file says. -/
def fileStatements (path : String) (category : Category) (o : Outline) (built : Identity → Bool)
    (known : String → Bool) : List Statement :=
  structureStatements path category o built ++
    (requireStatements path (fun f => known f || f = path) o.requires ++
      (relativeStatements path o.requireRelatives ++
        (classIn? o.declarations).elim [] fun owner => associationStatements path owner o.associations))

/-! ## Declarations -/

/-- The cache knows exactly the nodes that are said to be built. -/
def Knows (w : Work) (built : Identity → Bool) : Prop := ∀ i : Identity, w.cache.isBuilt i.1 i.2 = built i

/-- The first nodes of a file stand for first declarations. -/
structure Primary.Stands (g : Graph) (p : Primary) (container class? : Option Identity) : Prop where
  container : Option.Rel g.Names p.container container
  class? : Option.Rel g.Names p.class? class?

variable {path : String} {w : Work} {built : Identity → Bool} {file : Int}

theorem isBuilt_iff_lookup (c : BuildCache) (k : NodeKind) (key : String) :
    c.isBuilt k key = true ↔ ∃ id, c.lookup k key = some id := by
  rw [BuildCache.isBuilt, Option.isSome_iff_exists]

/-- The owner that is looked up is the one among those built. -/
theorem owner?_rel (hw : w.Sound) (hbuilt : Knows w built) (d : Declaration) :
    Option.Rel w.graph.Names (owner? w.cache d) (ownerOf? built d) := by
  cases henc : d.enclosing with
  | none =>
      simp only [owner?, ownerOf?, henc, Option.bind_none]
      exact .none
  | some name =>
      simp only [owner?, ownerOf?, henc, Option.bind_some]
      rw [← hbuilt (.classDecl, name), ← hbuilt (.moduleDecl, name)]
      cases hc : w.cache.lookup .classDecl name with
      | some id =>
          rw [if_pos ((isBuilt_iff_lookup _ _ _).2 ⟨id, hc⟩)]
          exact .some (hw.cache.lookup hc)
      | none =>
          rw [if_neg (by simp [BuildCache.isBuilt, hc])]
          cases hm : w.cache.lookup .moduleDecl name with
          | some id =>
              rw [if_pos ((isBuilt_iff_lookup _ _ _).2 ⟨id, hm⟩)]
              exact .some (hw.cache.lookup hm)
          | none =>
              rw [if_neg (by simp [BuildCache.isBuilt, hm])]
              exact .none

/-- Names determine each other, so that a node other than `i` has another id. -/
theorem rel_filter_ne {g : Graph} (hg : g.WellFormed) {a : Option Int} {b : Option Identity}
    (hrel : Option.Rel g.Names a b) {id : Int} {i : Identity} (hid : g.Names id i) :
    Option.Rel g.Names (a.filter (· ≠ id)) (b.filter (· ≠ i)) := by
  cases hrel with
  | none => exact .none
  | @some x j hx =>
      have hiff : x = id ↔ j = i := by
        constructor
        · rintro rfl
          exact hx.identity_eq hg hid
        · rintro rfl
          exact hx.id_eq hg hid
      by_cases hj : j = i
      · rw [Option.filter_some_neg (by simpa using hiff.2 hj), Option.filter_some_neg (by simpa using hj)]
        exact .none
      · rw [Option.filter_some_pos (by simpa using fun h => hj (hiff.1 h)), Option.filter_some_pos (by simpa using hj)]
        exact .some hx

theorem rel_names_mono {g g' : Graph} (h : ∀ id i, g.Names id i → g'.Names id i) {a : Option Int}
    {b : Option Identity} (hrel : Option.Rel g.Names a b) : Option.Rel g'.Names a b := by
  cases hrel with
  | none => exact .none
  | some hx => exact .some (h _ _ hx)

theorem rel_or {g : Graph} {a a' : Option Int} {b b' : Option Identity} (hrel : Option.Rel g.Names a b)
    (hrel' : Option.Rel g.Names a' b') : Option.Rel g.Names (a.or a') (b.or b') := by
  cases hrel with
  | none => exact hrel'
  | some hx => exact .some hx

theorem Primary.Stands.mono {g g' : Graph} {p : Primary} {container class? : Option Identity}
    (hp : p.Stands g container class?) (h : ∀ id i, g.Names id i → g'.Names id i) :
    p.Stands g' container class? :=
  ⟨rel_names_mono h hp.container, rel_names_mono h hp.class?⟩

theorem nodeOf?_isSome_iff (d : Declaration) : (nodeOf? d).isSome = true ↔ d.kind.isProjected = true := by
  unfold nodeOf?
  cases d.kind <;> simp [SymbolKind.isProjected]

/-- The kind of a declaration shows in its node. -/
theorem nodeOf?_kind {d : Declaration} {i : Identity} (h : nodeOf? d = some i) :
    (i.1 = .classDecl ↔ d.kind = .classDecl) ∧ (i.1 = .moduleDecl ↔ d.kind = .moduleDecl) ∧
      (i.1 = .method ↔ d.kind = .method) ∧ i.1 ≠ .file := by
  unfold nodeOf? at h
  cases hk : d.kind <;> rw [hk] at h <;> simp only [Option.some.injEq, reduceCtorEq] at h <;> subst h <;> simp

/-- What a declaration adds to the first class or module and to the first class. -/
theorem containerIn?_cons (d : Declaration) (rest : List Declaration) :
    containerIn? (d :: rest) = (containerIn? [d]).or (containerIn? rest) := by
  unfold containerIn?
  cases hc : d.kind.isContainer with
  | true =>
      have hsome : (nodeOf? d).isSome = true := by
        rw [nodeOf?_isSome_iff]
        cases hk : d.kind <;> simp_all [SymbolKind.isContainer, SymbolKind.isProjected]
      obtain ⟨i, hi⟩ := Option.isSome_iff_exists.1 hsome
      simp [hc, hi]
  | false => simp [hc]

theorem classIn?_cons (d : Declaration) (rest : List Declaration) :
    classIn? (d :: rest) = (classIn? [d]).or (classIn? rest) := by
  unfold classIn?
  by_cases hc : d.kind = .classDecl
  · have hsome : (nodeOf? d).isSome = true := by
      rw [nodeOf?_isSome_iff, hc]
      rfl
    obtain ⟨i, hi⟩ := Option.isSome_iff_exists.1 hsome
    simp [hc, hi]
  · simp [hc]

/-- The statements of a declaration with a node. -/
theorem declarationStatements_of_some {d : Declaration} {i : Identity} (h : nodeOf? d = some i) :
    declarationStatements path built d =
      .declare (declarationNode path d i) ::
      .relate ⟨.defines, (.file, path), i⟩ [locationOf path d] (.obj []) ::
      ((((ownerOf? built d).filter (· ≠ i)).toList.map fun owner =>
        .relate ⟨.defines, owner, i⟩ [locationOf path d] (.obj [])) ++
      ((superclassOf? d).toList.map fun name =>
        .relate ⟨.inherits, i, (.classDecl, name)⟩ [locationOf path d] (.obj []))) := by
  simp only [declarationStatements, h, List.cons_append]

/-- The last step of writing a declaration: its superclass, and its place among the first nodes. -/
def writeAncestry (path : String) (kind : NodeKind) (id : Int) (d : Declaration) (primary : Primary) : Build Primary :=
  match kind with
  | .classDecl =>
    match d.superclass with
    | some name => do
      let parent ← resolve .classDecl name
      writeEdge path { kind := .inherits, source := id, target := parent, locations := [locationOf path d] }
      return { container := primary.container.or (some id), class? := primary.class?.or (some id) }
    | none => return { container := primary.container.or (some id), class? := primary.class?.or (some id) }
  | .moduleDecl => return { primary with container := primary.container.or (some id) }
  | _ => return primary

theorem says_writeAncestry (path : String) (hw : w.Sound) {d : Declaration} {i : Identity}
    (hi : nodeOf? d = some i) {id : Int} (hid : w.graph.Names id i) {primary : Primary} {container class? : Option Identity}
    (hp : primary.Stands w.graph container class?) :
    ∃ primary', Says (writeAncestry path i.1 id d primary) path w primary'
        ((superclassOf? d).toList.map fun name =>
          .relate ⟨.inherits, i, (.classDecl, name)⟩ [locationOf path d] (.obj [])) ∧
      primary'.Stands w.graph (container.or (containerIn? [d])) (class?.or (classIn? [d])) := by
  obtain ⟨hclass, hmodule, hmethod, -⟩ := nodeOf?_kind hi
  have hself : Option.Rel w.graph.Names (some id) (some i) := .some hid
  by_cases hc : d.kind = .classDecl
  · have hcontainerIn : containerIn? [d] = some i := by simp [containerIn?, hc, SymbolKind.isContainer, hi]
    have hclassIn : classIn? [d] = some i := by simp [classIn?, hc, hi]
    have hsuper : superclassOf? d = d.superclass := if_pos hc
    refine ⟨⟨primary.container.or (some id), primary.class?.or (some id)⟩, ?_, ?_, ?_⟩
    · rw [hsuper, hclass.2 hc, writeAncestry]
      cases d.superclass with
      | none => exact Says.pure path w _
      | some name => exact says_resolve_writeEdge_bind hw (fun _ => rfl) hid (Says.pure path _ _)
    · rw [hcontainerIn]
      exact rel_or hp.container hself
    · rw [hclassIn]
      exact rel_or hp.class? hself
  · have hclassIn : classIn? [d] = none := by simp [classIn?, hc]
    have hsuper : superclassOf? d = none := if_neg hc
    rw [hsuper, hclassIn, Option.or_none]
    by_cases hm : d.kind = .moduleDecl
    · have hcontainerIn : containerIn? [d] = some i := by
        simp [containerIn?, hm, SymbolKind.isContainer, hi]
      refine ⟨{ primary with container := primary.container.or (some id) }, ?_, ?_, hp.class?⟩
      · rw [hmodule.2 hm]
        exact Says.pure path w _
      · rw [hcontainerIn]
        exact rel_or hp.container hself
    · have hcontainerIn : containerIn? [d] = none := by
        cases hk : d.kind <;> simp_all [containerIn?, SymbolKind.isContainer]
      refine ⟨primary, ?_, ?_, hp.class?⟩
      · have hk : i.1 ≠ .classDecl ∧ i.1 ≠ .moduleDecl := ⟨fun h => hc (hclass.1 h), fun h => hm (hmodule.1 h)⟩
        unfold writeAncestry
        split
        · rename_i h
          exact absurd h hk.1
        · rename_i h
          exact absurd h hk.2
        · exact Says.pure path w _
      · rw [hcontainerIn, Option.or_none]
        exact hp.container

/-- The step before that: the edge from the owner, if there is one other than the node itself. -/
def writeOwner (path : String) (owner : Option Int) (id : Int) (d : Declaration) : Build Unit :=
  match owner.filter (· ≠ id) with
  | some owner => writeEdge path { kind := .defines, source := owner, target := id, locations := [locationOf path d] }
  | none => pure ()

theorem says_writeOwner (path : String) (hw : w.Sound) (d : Declaration) {owner : Option Int} {owner' : Option Identity}
    (howner : Option.Rel w.graph.Names owner owner') {id : Int} {i : Identity} (hid : w.graph.Names id i) :
    Says (writeOwner path owner id d) path w ()
      ((owner'.filter (· ≠ i)).toList.map fun owner =>
        .relate ⟨.defines, owner, i⟩ [locationOf path d] (.obj [])) := by
  have hother := rel_filter_ne hw.graph howner hid
  unfold writeOwner
  generalize owner.filter (· ≠ id) = a at hother ⊢
  generalize owner'.filter (· ≠ i) = b at hother ⊢
  cases hother with
  | none => exact Says.pure path w ()
  | some hx => exact says_writeEdge hw hx hid

/-- The steps of writing a declaration with a node. -/
theorem writeDeclaration_of_some {d : Declaration} {i : Identity} (h : nodeOf? d = some i) (primary : Primary) :
    writeDeclaration path file primary d = (do
      let w ← get
      let id ← writeNode (declarationNode path d i)
      writeEdge path { kind := .defines, source := file, target := id, locations := [locationOf path d] }
      writeOwner path (owner? w.cache d) id d
      writeAncestry path i.1 id d primary) := by
  obtain ⟨kind, key⟩ := i
  simp only [writeDeclaration, h, writeOwner, declarationNode, locationOf, lineOf]
  refine bind_congr fun w => bind_congr fun id => bind_congr fun _ => ?_
  cases (owner? w.cache d).filter (· ≠ id) with
  | none =>
      dsimp only
      rw [pure_bind]
      rfl
  | some owner => rfl

theorem knows_declarationStatements (hbuilt : Knows w built) (d : Declaration) :
    Knows (applyAll path w (declarationStatements path built d)) (builtWith built d) := by
  intro i
  have hdeclares : Declares (declarationStatements path built d) i ↔ nodeOf? d = some i := by
    cases hi : nodeOf? d with
    | none => simp [Declares, declarationStatements, hi]
    | some j =>
        rw [declarationStatements_of_some hi]
        simp only [Declares, List.mem_cons, List.mem_append, List.mem_map, reduceCtorEq, and_false, exists_false,
          or_false, Statement.declare.injEq, exists_eq_left, Option.some.injEq]
        rfl
  rw [Bool.eq_iff_iff, isBuilt_applyAll, hbuilt i, hdeclares]
  simp [builtWith]

theorem says_writeDeclaration (hw : w.Sound) (hbuilt : Knows w built) (hfile : w.graph.Names file (.file, path))
    {primary : Primary} {container class? : Option Identity} (hp : primary.Stands w.graph container class?)
    (d : Declaration) :
    ∃ primary', Says (writeDeclaration path file primary d) path w primary' (declarationStatements path built d) ∧
      primary'.Stands (applyAll path w (declarationStatements path built d)).graph
        (container.or (containerIn? [d])) (class?.or (classIn? [d])) := by
  cases hi : nodeOf? d with
  | none =>
      have hk : d.kind.isProjected ≠ true := by
        rw [ne_eq, ← nodeOf?_isSome_iff, hi]
        simp
      have hcontainerIn : containerIn? [d] = none := by
        cases hk' : d.kind <;> simp_all [containerIn?, SymbolKind.isContainer, SymbolKind.isProjected]
      have hclassIn : classIn? [d] = none := by
        cases hk' : d.kind <;> simp_all [classIn?, SymbolKind.isProjected]
      rw [hcontainerIn, hclassIn, Option.or_none, Option.or_none]
      refine ⟨primary, ?_, ?_⟩
      · simp only [writeDeclaration, declarationStatements, hi]
        exact Says.pure path w _
      · simp only [declarationStatements, hi]
        exact hp
  | some i =>
      let n := declarationNode path d i
      let s := Statement.relate ⟨.defines, (.file, path), i⟩ [locationOf path d] (.obj [])
      let id := (w.graph.upsertNode n).2
      let w₁ := Statement.apply path w (.declare n)
      have hw₁ : w₁.Sound := sound_apply hw _
      have hid₁ : w₁.graph.Names id i := names_writeNode hw n
      have hw₂ : (s.apply path w₁).Sound := sound_apply hw₁ s
      have hmono : ∀ id i, w.graph.Names id i → (s.apply path w₁).graph.Names id i :=
        fun _ _ h => names_apply hw₁ (names_apply hw h _) s
      have hid₂ := names_apply (o := path) hw₁ hid₁ s
      have howner := says_writeOwner path hw₂ d (rel_names_mono hmono (owner?_rel hw hbuilt d)) hid₂
      let owners := ((ownerOf? built d).filter (· ≠ i)).toList.map fun owner =>
        Statement.relate ⟨.defines, owner, i⟩ [locationOf path d] (.obj [])
      have hw₃ : (applyAll path (s.apply path w₁) owners).Sound := sound_applyAll hw₂ _
      have hmono₃ : ∀ id i, (s.apply path w₁).graph.Names id i →
          (applyAll path (s.apply path w₁) owners).graph.Names id i := fun _ _ h => names_applyAll hw₂ h _
      obtain ⟨primary', hwords, hstands⟩ := says_writeAncestry path hw₃ hi (hmono₃ _ _ hid₂)
        (hp.mono fun _ _ h => hmono₃ _ _ (hmono _ _ h))
      refine ⟨primary', ?_, ?_⟩
      · rw [writeDeclaration_of_some hi, declarationStatements_of_some hi]
        refine Says.get_bind ((says_writeNode path w n).bind_cons ?_)
        exact (says_writeEdge hw₁ (names_apply hw hfile _) hid₁).bind_cons (howner.bind hwords)
      · rw [declarationStatements_of_some hi, applyAll_cons, applyAll_cons, applyAll_append]
        exact hstands.mono fun _ _ h => names_applyAll hw₃ h _

/-- Writing declarations in turn carries out what they say. -/
theorem says_writeDeclarations (hw : w.Sound) (hbuilt : Knows w built) (hfile : w.graph.Names file (.file, path))
    {primary : Primary} {container class? : Option Identity} (hp : primary.Stands w.graph container class?)
    (ds : List Declaration) :
    ∃ primary', Says (writeDeclarations path file primary ds) path w primary' (declarationsStatements path built ds) ∧
      primary'.Stands (applyAll path w (declarationsStatements path built ds)).graph
        (container.or (containerIn? ds)) (class?.or (classIn? ds)) := by
  induction ds generalizing w built primary container class? with
  | nil =>
      refine ⟨primary, Says.pure path w primary, ?_⟩
      simpa [containerIn?, classIn?, declarationsStatements] using hp
  | cons d rest ih =>
      obtain ⟨p₁, hwords₁, hstands₁⟩ := says_writeDeclaration hw hbuilt hfile hp d
      have hw₁ : (applyAll path w (declarationStatements path built d)).Sound := sound_applyAll hw _
      obtain ⟨p₂, hwords₂, hstands₂⟩ :=
        ih hw₁ (knows_declarationStatements hbuilt d) (names_applyAll hw hfile _) hstands₁
      refine ⟨p₂, hwords₁.bind hwords₂, ?_⟩
      rw [containerIn?_cons, classIn?_cons, ← Option.or_assoc, ← Option.or_assoc, declarationsStatements,
        applyAll_append]
      exact hstands₂

/-! ## Modules, files and associations -/

theorem says_writeMixins (path : String) (hw : w.Sound) (kind : EdgeKind) {id : Int} {owner : Identity}
    (howner : w.graph.Names id owner) (names : List String) :
    Says (writeMixins path kind id names) path w () (mixinStatements kind owner names) := by
  induction names generalizing w with
  | nil => exact Says.pure path w ()
  | cons name rest ih =>
      exact says_resolve_writeEdge_bind hw (fun _ => rfl) howner (ih (sound_apply hw _) (names_apply hw howner _))

/-- The files that are in the graph. -/
def KnowsFiles (w : Work) (known : String → Bool) : Prop := ∀ f, w.graph.Has (.file, f) ↔ known f = true

theorem requireTarget_eq (hw : w.Sound) {known : String → Bool} (hknown : KnowsFiles w known) (required : String) :
    requireTarget w required = requiredFile known required := by
  have hcond : ∀ f, (w.cache.isBuilt .file f || (w.graph.nodeId? .file f).isSome) = known f := by
    intro f
    rw [Bool.eq_iff_iff, Bool.or_eq_true, isBuilt_iff_lookup, Graph.nodeId?_isSome_iff hw.graph, ← hknown f]
    constructor
    · rintro (⟨id, hid⟩ | h)
      · exact ⟨id, hw.cache.lookup hid⟩
      · exact h
    · exact Or.inr
  simp only [requireTarget, requiredFile, hcond]

theorem says_writeRequires (hw : w.Sound) {known : String → Bool} (hknown : KnowsFiles w known)
    (hpath : known path = true) (hfile : w.graph.Names file (.file, path)) (requires : List String) :
    Says (writeRequires path file requires) path w () (requireStatements path known requires) := by
  induction requires generalizing w known with
  | nil => exact Says.pure path w ()
  | cons required rest ih =>
      refine Says.get_bind ?_
      rw [requireTarget_eq hw hknown]
      refine says_resolve_writeEdge_bind hw (fun _ => rfl) hfile
        (ih (sound_apply hw _) ?_ (by simp [hpath]) (names_apply hw hfile _))
      intro f
      rw [has_apply hw, hknown f]
      simp only [Statement.Mentions, Prod.mk.injEq, true_and, Bool.or_eq_true, decide_eq_true_eq]
      constructor
      · rintro (h | rfl | h)
        · exact Or.inl h
        · exact Or.inl hpath
        · exact Or.inr h
      · rintro (h | h)
        · exact Or.inl h
        · exact Or.inr (Or.inr h)

theorem says_writeRelatives (hw : w.Sound) (hfile : w.graph.Names file (.file, path)) (relatives : List String) :
    Says (writeRelatives path file relatives) path w () (relativeStatements path relatives) := by
  induction relatives generalizing w with
  | nil => exact Says.pure path w ()
  | cons relative rest ih =>
      exact says_resolve_writeEdge_bind hw (fun _ => rfl) hfile (ih (sound_apply hw _) (names_apply hw hfile _))

theorem says_writeAssociations (hw : w.Sound) {id : Int} {owner : Identity} (howner : w.graph.Names id owner)
    (associations : List DeclaredAssociation) :
    Says (writeAssociations path id associations) path w () (associationStatements path owner associations) := by
  induction associations generalizing w with
  | nil => exact Says.pure path w ()
  | cons a rest ih =>
      exact says_resolve_writeEdge_bind hw (fun _ => rfl) howner (ih (sound_apply hw _) (names_apply hw howner _))

/-! ## The whole file -/

theorem containerIn?_kind {ds : List Declaration} {i : Identity} (h : containerIn? ds = some i) : i.1 ≠ .file := by
  obtain ⟨d, _, hd⟩ := Option.bind_eq_some_iff.1 h
  exact (nodeOf?_kind hd).2.2.2

theorem ownerOf?_kind {d : Declaration} {i : Identity} (h : ownerOf? built d = some i) :
    i.1 = .classDecl ∨ i.1 = .moduleDecl := by
  obtain ⟨name, _, hi⟩ := Option.bind_eq_some_iff.1 h
  split at hi
  · simp only [Option.some.injEq] at hi
    exact Or.inl (by rw [← hi])
  · split at hi
    · simp only [Option.some.injEq] at hi
      exact Or.inr (by rw [← hi])
    · exact absurd hi (by simp)

/-- The only file that declarations speak of is their own. -/
theorem file_of_mentions_declarations {ds : List Declaration} {s : Statement}
    (hs : s ∈ declarationsStatements path built ds) {f : String} (hf : s.Mentions (.file, f)) : f = path := by
  induction ds generalizing built with
  | nil => exact absurd hs (by simp [declarationsStatements])
  | cons d rest ih =>
      rcases List.mem_append.1 hs with hs | hs
      · cases hi : nodeOf? d with
        | none => exact absurd hs (by simp [declarationStatements, hi])
        | some i =>
            have hfile := (nodeOf?_kind hi).2.2.2
            rw [declarationStatements_of_some hi] at hs
            simp only [List.mem_cons, List.mem_append, List.mem_map, Option.mem_toList, Option.filter_eq_some_iff] at hs
            rcases hs with rfl | rfl | ⟨owner, ⟨howner, _⟩, rfl⟩ | ⟨name, _, rfl⟩
            · exact absurd (congrArg Prod.fst hf).symm hfile
            · rcases hf with hf | hf
              · exact congrArg Prod.snd hf
              · exact absurd (congrArg Prod.fst hf).symm hfile
            · rcases hf with hf | hf
              · have hne : owner.1 ≠ .file := by rcases ownerOf?_kind howner with h | h <;> simp [h]
                exact absurd (congrArg Prod.fst hf).symm hne
              · exact absurd (congrArg Prod.fst hf).symm hfile
            · rcases hf with hf | hf
              · exact absurd (congrArg Prod.fst hf).symm hfile
              · exact absurd (congrArg Prod.fst hf) (by simp)
      · exact ih hs

theorem file_of_mentions_structure {category : Category} {o : Outline} {f : String} :
    (∃ s ∈ structureStatements path category o built, s.Mentions (.file, f)) ↔ f = path := by
  constructor
  · rintro ⟨s, hs, hf⟩
    have howner : ∀ {f}, ((.file, f) : Identity) = (containerIn? o.declarations).getD (.file, path) → f = path := by
      intro f h
      cases hc : containerIn? o.declarations with
      | none =>
          rw [hc, Option.getD_none] at h
          exact congrArg Prod.snd h
      | some i =>
          rw [hc, Option.getD_some] at h
          exact absurd (congrArg Prod.fst h).symm (containerIn?_kind hc)
    simp only [structureStatements, mixinStatements, List.mem_cons, List.mem_append, List.mem_map] at hs
    rcases hs with rfl | hs | ⟨name, _, rfl⟩ | ⟨name, _, rfl⟩
    · exact congrArg Prod.snd hf
    · exact file_of_mentions_declarations hs hf
    · rcases hf with hf | hf
      · exact howner hf
      · exact absurd (congrArg Prod.fst hf) (by simp)
    · rcases hf with hf | hf
      · exact howner hf
      · exact absurd (congrArg Prod.fst hf) (by simp)
  · rintro rfl
    exact ⟨_, List.mem_cons_self, rfl⟩

/-- The first part of writing a file: its node, its declarations and the modules mixed in. -/
def writeStructure (path : String) (category : Category) (o : Outline) : Build (Int × Primary) := do
  let file ← writeNode (fileNode path category o)
  let primary ← writeDeclarations path file {} o.declarations
  writeMixins path .includes (primary.container.getD file) o.includes
  writeMixins path .extendsModule (primary.container.getD file) o.extensions
  return (file, primary)

/-- The second part: the files required and the associations. -/
def writeReferences (path : String) (o : Outline) (file : Int) (primary : Primary) : Build Unit := do
  writeRequires path file o.requires
  writeRelatives path file o.requireRelatives
  match primary.class? with
  | some owner => writeAssociations path owner o.associations
  | none => return ()

theorem writeFile_eq (category : Category) (o : Outline) :
    writeFile path category o = writeStructure path category o >>= fun p => writeReferences path o p.1 p.2 := by
  symm
  simp only [writeStructure, bind_assoc, pure_bind]
  rfl

/-- The owner of the mixed-in modules: the first class or module, or else the file. -/
theorem names_mixinOwner {g : Graph} {primary : Primary} {container class? : Option Identity}
    (hp : primary.Stands g container class?) (hfile : g.Names file (.file, path)) :
    g.Names (primary.container.getD file) (container.getD (.file, path)) := by
  have hrel := hp.container
  generalize primary.container = a at hrel ⊢
  cases hrel with
  | none => exact hfile
  | some h => exact h

theorem says_writeStructure (path : String) (hw : w.Sound) (hbuilt : Knows w built) (category : Category)
    (o : Outline) :
    ∃ file primary,
      Says (writeStructure path category o) path w (file, primary) (structureStatements path category o built) ∧
      (applyAll path w (structureStatements path category o built)).graph.Names file (.file, path) ∧
      primary.Stands (applyAll path w (structureStatements path category o built)).graph
        (containerIn? o.declarations) (classIn? o.declarations) := by
  let file := (w.graph.upsertNode (fileNode path category o)).2
  let w₁ := Statement.apply path w (.declare (fileNode path category o))
  have hw₁ : w₁.Sound := sound_apply hw _
  have hfile₁ : w₁.graph.Names file (.file, path) := names_writeNode hw (fileNode path category o)
  have hbuilt₁ : Knows w₁ (fun i => built i || i = (.file, path)) := by
    intro i
    rw [Bool.eq_iff_iff, isBuilt_apply, hbuilt i]
    simp only [Statement.declare.injEq, exists_eq_left', Bool.or_eq_true, decide_eq_true_eq]
    exact or_congr_right eq_comm
  have hnone : ({} : Primary).Stands w₁.graph none none := ⟨.none, .none⟩
  obtain ⟨primary, hdecls, hstands₂⟩ := says_writeDeclarations hw₁ hbuilt₁ hfile₁ hnone o.declarations
  rw [Option.none_or, Option.none_or] at hstands₂
  let declarations := declarationsStatements path (fun i => built i || i = (.file, path)) o.declarations
  have hw₂ : (applyAll path w₁ declarations).Sound := sound_applyAll hw₁ _
  have hfile₂ : (applyAll path w₁ declarations).graph.Names file (.file, path) := names_applyAll hw₁ hfile₁ _
  have howner₂ := names_mixinOwner hstands₂ hfile₂
  have hincludes := says_writeMixins path hw₂ .includes howner₂ o.includes
  let includes := mixinStatements .includes ((containerIn? o.declarations).getD (.file, path)) o.includes
  have hw₃ : (applyAll path (applyAll path w₁ declarations) includes).Sound := sound_applyAll hw₂ _
  have hextensions := says_writeMixins path hw₃ .extendsModule (names_applyAll hw₂ howner₂ _) o.extensions
  refine ⟨file, primary, ?_, ?_, ?_⟩
  · rw [← List.append_nil (structureStatements path category o built)]
    simp only [structureStatements, List.cons_append, List.append_assoc]
    exact (says_writeNode path w (fileNode path category o)).bind_cons
      (hdecls.bind (hincludes.bind (hextensions.bind (Says.pure path _ _))))
  · rw [structureStatements, applyAll_cons, applyAll_append, applyAll_append]
    exact names_applyAll hw₃ (names_applyAll hw₂ hfile₂ _) _
  · rw [structureStatements, applyAll_cons, applyAll_append, applyAll_append]
    exact hstands₂.mono fun _ _ h => names_applyAll hw₃ (names_applyAll hw₂ h _) _

theorem says_writeReferences (hw : w.Sound) {known : String → Bool} (hknown : KnowsFiles w known)
    (hpath : known path = true) (hfile : w.graph.Names file (.file, path)) {primary : Primary}
    {container class? : Option Identity} (hp : primary.Stands w.graph container class?) (o : Outline) :
    Says (writeReferences path o file primary) path w ()
      (requireStatements path known o.requires ++ (relativeStatements path o.requireRelatives ++
        class?.elim [] fun owner => associationStatements path owner o.associations)) := by
  have hrequires := says_writeRequires hw hknown hpath hfile o.requires
  have hw₁ : (applyAll path w (requireStatements path known o.requires)).Sound := sound_applyAll hw _
  have hrelatives := says_writeRelatives hw₁ (names_applyAll hw hfile _) o.requireRelatives
  refine hrequires.bind (hrelatives.bind ?_)
  have hrel := hp.class?
  generalize primary.class? = a at hrel ⊢
  cases hrel with
  | none => exact Says.pure path _ ()
  | some h =>
      exact says_writeAssociations (sound_applyAll hw₁ _) (names_applyAll hw₁ (names_applyAll hw h _) _) o.associations

/-- Projecting a file carries out what the file says. -/
theorem says_writeFile (hw : w.Sound) (hbuilt : Knows w built) {known : String → Bool} (hknown : KnowsFiles w known)
    (category : Category) (o : Outline) :
    Says (writeFile path category o) path w () (fileStatements path category o built known) := by
  obtain ⟨file, primary, hstructure, hfile, hstands⟩ := says_writeStructure path hw hbuilt category o
  have hknown₁ : KnowsFiles (applyAll path w (structureStatements path category o built))
      (fun f => known f || f = path) := by
    intro f
    rw [has_applyAll hw, file_of_mentions_structure, hknown f]
    simp
  rw [writeFile_eq]
  exact hstructure.bind (says_writeReferences (sound_applyAll hw _) hknown₁ (by simp) hfile hstands o)

/-! ## What the statements are about -/

/-- The links that a file relates, with the locations it gives. -/
inductive FileLink (path : String) (o : Outline) : Link → List String → Prop
  | defines (d : Declaration) (i : Identity) (mem : d ∈ o.declarations) (node : nodeOf? d = some i) :
      FileLink path o ⟨.defines, (.file, path), i⟩ [locationOf path d]
  | owns (d : Declaration) (owner i : Identity) (mem : d ∈ o.declarations) (node : nodeOf? d = some i)
      (kind : owner.1 = .classDecl ∨ owner.1 = .moduleDecl) :
      FileLink path o ⟨.defines, owner, i⟩ [locationOf path d]
  | inherits (d : Declaration) (name : String) (i : Identity) (mem : d ∈ o.declarations) (node : nodeOf? d = some i) :
      FileLink path o ⟨.inherits, i, (.classDecl, name)⟩ [locationOf path d]
  | mixes (kind : EdgeKind) (name : String) (mixin : kind = .includes ∨ kind = .extendsModule) :
      FileLink path o ⟨kind, (containerIn? o.declarations).getD (.file, path), (.moduleDecl, name)⟩ []
  | requires (target : String) : FileLink path o ⟨.requires, (.file, path), (.file, target)⟩ []
  | associates (a : DeclaredAssociation) (owner : Identity) (first : classIn? o.declarations = some owner) :
      FileLink path o ⟨a.word.edgeKind, owner, (.classDecl, associationTarget a)⟩
        (a.line.map (lineOf path)).toList

variable {category : Category} {o : Outline} {known : String → Bool}

theorem fileLink_of_mem_declarations {ds : List Declaration} (hds : ∀ d ∈ ds, d ∈ o.declarations) {l : Link}
    {locations : List String} {metadata : Json}
    (h : Statement.relate l locations metadata ∈ declarationsStatements path built ds) :
    FileLink path o l locations := by
  induction ds generalizing built with
  | nil => exact absurd h (by simp [declarationsStatements])
  | cons d rest ih =>
      rcases List.mem_append.1 h with h | h
      · have hd := hds d List.mem_cons_self
        cases hi : nodeOf? d with
        | none => exact absurd h (by simp [declarationStatements, hi])
        | some i =>
            rw [declarationStatements_of_some hi] at h
            simp only [List.mem_cons, List.mem_append, List.mem_map, Option.mem_toList, Option.filter_eq_some_iff,
              Statement.relate.injEq, reduceCtorEq, false_or] at h
            rcases h with ⟨rfl, rfl, _⟩ | ⟨owner, ⟨howner, _⟩, rfl, rfl, _⟩ | ⟨name, _, rfl, rfl, _⟩
            · exact .defines d i hd hi
            · exact .owns d owner i hd hi (ownerOf?_kind howner)
            · exact .inherits d name i hd hi
      · exact ih (fun d' hd' => hds d' (List.mem_cons_of_mem _ hd')) h

theorem fileLink_of_mem_requires {requires : List String} {l : Link} {locations : List String} {metadata : Json}
    (h : Statement.relate l locations metadata ∈ requireStatements path known requires) :
    FileLink path o l locations := by
  induction requires generalizing known with
  | nil => exact absurd h (by simp [requireStatements])
  | cons required rest ih =>
      rcases List.mem_cons.1 h with h | h
      · simp only [Statement.relate.injEq] at h
        obtain ⟨rfl, rfl, _⟩ := h
        exact .requires _
      · exact ih h

theorem fileLink_of_mem {l : Link} {locations : List String} {metadata : Json}
    (h : Statement.relate l locations metadata ∈ fileStatements path category o built known) :
    FileLink path o l locations := by
  simp only [fileStatements, structureStatements, mixinStatements, relativeStatements, List.cons_append, List.mem_cons,
    List.mem_append, List.mem_map, reduceCtorEq, false_or, Statement.relate.injEq] at h
  rcases h with (h | ⟨name, _, rfl, rfl, _⟩ | ⟨name, _, rfl, rfl, _⟩) | h | ⟨relative, _, rfl, rfl, _⟩ | h
  · exact fileLink_of_mem_declarations (fun _ hd => hd) h
  · exact .mixes .includes name (Or.inl rfl)
  · exact .mixes .extendsModule name (Or.inr rfl)
  · exact fileLink_of_mem_requires h
  · exact .requires _
  · cases hc : classIn? o.declarations with
    | none => exact absurd h (by simp [hc])
    | some owner =>
        simp only [hc, Option.elim_some, associationStatements, List.mem_map, Statement.relate.injEq] at h
        obtain ⟨a, _, rfl, rfl, _⟩ := h
        exact .associates a owner hc

/-- The nodes that a file declares. -/
inductive FileNode (path : String) (category : Category) (o : Outline) : NewNode → Prop
  | file : FileNode path category o (fileNode path category o)
  | declaration (d : Declaration) (i : Identity) (mem : d ∈ o.declarations) (node : nodeOf? d = some i) :
      FileNode path category o (declarationNode path d i)

theorem declare_mem_declarations {ds : List Declaration} {n : NewNode} :
    Statement.declare n ∈ declarationsStatements path built ds ↔
      ∃ d ∈ ds, ∃ i, nodeOf? d = some i ∧ n = declarationNode path d i := by
  induction ds generalizing built with
  | nil => simp [declarationsStatements]
  | cons d rest ih =>
      rw [declarationsStatements, List.mem_append, ih, List.exists_mem_cons_iff]
      refine or_congr ?_ Iff.rfl
      cases hi : nodeOf? d with
      | none => simp [declarationStatements, hi]
      | some i =>
          rw [declarationStatements_of_some hi]
          simp

theorem declare_mem_fileStatements {n : NewNode} :
    Statement.declare n ∈ fileStatements path category o built known ↔ FileNode path category o n := by
  have hrequires : ∀ (known : String → Bool) (requires : List String),
      Statement.declare n ∉ requireStatements path known requires := by
    intro known requires
    induction requires generalizing known with
    | nil => simp [requireStatements]
    | cons required rest ih => simp [requireStatements, ih]
  have hassociations : Statement.declare n ∉
      (classIn? o.declarations).elim [] fun owner => associationStatements path owner o.associations := by
    cases classIn? o.declarations <;> simp [associationStatements]
  simp only [fileStatements, structureStatements, mixinStatements, relativeStatements, List.cons_append, List.mem_cons,
    List.mem_append, List.mem_map, reduceCtorEq, and_false, exists_false, or_false, hrequires, hassociations,
    Statement.declare.injEq, declare_mem_declarations]
  constructor
  · rintro (rfl | ⟨d, hd, i, hi, rfl⟩)
    · exact .file
    · exact .declaration d i hd hi
  · intro h
    cases h with
    | file => exact Or.inl rfl
    | declaration d i hd hi => exact Or.inr ⟨d, hd, i, hi, rfl⟩

/-- The outline declares the node with an identity. -/
def Defines (o : Outline) (i : Identity) : Prop := ∃ d ∈ o.declarations, nodeOf? d = some i

theorem declares_fileStatements (i : Identity) :
    Declares (fileStatements path category o built known) i ↔ i = (.file, path) ∨ Defines o i := by
  simp only [Declares, declare_mem_fileStatements]
  constructor
  · rintro ⟨n, hn, rfl⟩
    cases hn with
    | file => exact Or.inl rfl
    | declaration d i hd hi => exact Or.inr ⟨d, hd, hi⟩
  · rintro (rfl | ⟨d, hd, hi⟩)
    · exact ⟨_, .file, rfl⟩
    · exact ⟨_, .declaration d i hd hi, rfl⟩

/-- A file relates itself to what it defines. -/
theorem relates_defines {i : Identity} (h : Defines o i) :
    Relates (fileStatements path category o built known) ⟨.defines, (.file, path), i⟩ := by
  obtain ⟨d, hd, hi⟩ := h
  have hmem : ∀ (ds : List Declaration) (built : Identity → Bool), d ∈ ds →
      Statement.relate ⟨.defines, (.file, path), i⟩ [locationOf path d] (.obj []) ∈
        declarationsStatements path built ds := by
    intro ds
    induction ds with
    | nil => exact fun _ h => absurd h (by simp)
    | cons e rest ih =>
        intro built h
        rcases List.mem_cons.1 h with rfl | h
        · refine List.mem_append_left _ ?_
          rw [declarationStatements_of_some hi]
          simp
        · exact List.mem_append_right _ (ih _ h)
  refine ⟨[locationOf path d], .obj [], ?_⟩
  have hin := hmem o.declarations (fun i => built i || i = (.file, path)) hd
  exact List.mem_append_left _ (List.mem_cons_of_mem _ (List.mem_append_left _ hin))

/-- A `defines` link from a file node is one of the file itself, to what it declares, at the line of the declaration. -/
theorem fileLink_defines {l : Link} {locations : List String} (h : FileLink path o l locations) {p : String}
    {i : Identity} (hl : l = ⟨.defines, (.file, p), i⟩) :
    p = path ∧ ∃ d ∈ o.declarations, nodeOf? d = some i ∧ locations = [locationOf path d] := by
  cases h with
  | defines d j hd hj =>
      simp only [Link.mk.injEq, Prod.mk.injEq, true_and] at hl
      obtain ⟨rfl, rfl⟩ := hl
      exact ⟨rfl, d, hd, hj, rfl⟩
  | owns d owner j _ _ kind =>
      simp only [Link.mk.injEq, true_and] at hl
      rw [hl.1] at kind
      exact absurd kind (by simp)
  | inherits => exact absurd (congrArg Link.kind hl) (by simp)
  | mixes kind name mixin =>
      have hk : kind = EdgeKind.defines := congrArg Link.kind hl
      rcases mixin with h | h <;> exact absurd (h.symm.trans hk) (by simp)
  | requires => exact absurd (congrArg Link.kind hl) (by simp)
  | associates a =>
      have hk : a.word.edgeKind = EdgeKind.defines := congrArg Link.kind hl
      cases hw : a.word <;> simp [hw, AssociationWord.edgeKind] at hk

end CodeAtlas.Projection
