import CodeAtlas.Proofs.Json.Lookup
import CodeAtlas.Proofs.Projection.LastWord
import CodeAtlas.Proofs.Projection.Provenance
import CodeAtlas.Proofs.Projection.Requiring
/-!
# Moving a node to another file

A node that its file no longer declares moves to another file that defines it (`moved_unit`), where it is rebuilt from
four sources: the line comes from the `defines` edge of that file, which gives the line of the last declaration
(`lastRelated?_defines`), the last line, visibility and signature from the symbol stored for that line, the superclass
from an edge that the file holds (`superclassFrom?_eq_some`), and the mark of a class-level method from the node as it
was before (`redefinition_eq`).
-/

namespace CodeAtlas.Projection

/-! ## The last declaration of a node -/

/-- The last one among declarations that gives the node with the identity `i`. -/
def lastDeclaration? (i : Identity) : List Declaration → Option Declaration
  | [] => none
  | d :: rest => (lastDeclaration? i rest).or (if nodeOf? d = some i then some d else none)

theorem lastDeclaration?_eq_some {i : Identity} {ds : List Declaration} {d : Declaration}
    (h : lastDeclaration? i ds = some d) : d ∈ ds ∧ nodeOf? d = some i := by
  induction ds with
  | nil => exact absurd h (by simp [lastDeclaration?])
  | cons first rest ih =>
      rcases Option.or_eq_some_iff.1 h with h | ⟨_, h⟩
      · exact ⟨List.mem_cons_of_mem _ (ih h).1, (ih h).2⟩
      · obtain ⟨hi, hd⟩ := Option.ite_none_right_eq_some.1 h
        rw [← Option.some.inj hd]
        exact ⟨List.mem_cons_self, hi⟩

/-- A declaration of the outline gives the node with the identity `i` the superclass `j`. -/
def Inherits (o : Outline) (i j : Identity) : Prop :=
  ∃ d ∈ o.declarations, nodeOf? d = some i ∧ ∃ name, superclassOf? d = some name ∧ j = (.classDecl, name)

/-- The statement relates something else than a definition or a superclass. -/
def Statement.Aside : Statement → Prop
  | .declare _ => False
  | .relate l _ _ => l.kind ≠ .defines ∧ l.kind ≠ .inherits

section

variable {path : String} {category : Category} {o : Outline} {built : Identity → Bool} {known : String → Bool}
  {i : Identity}

theorem lastDeclared?_eq_none {statements : List Statement} (h : ¬ Declares statements i) :
    lastDeclared? statements i = none := by
  cases hlast : lastDeclared? statements i with
  | none => rfl
  | some n => exact absurd (declares_of_lastDeclared hlast) h

theorem lastDeclared?_declarationStatements (d : Declaration) :
    lastDeclared? (declarationStatements path built d) i =
      if nodeOf? d = some i then some (declarationNode path d i) else none := by
  cases hd : nodeOf? d with
  | none => simp [declarationStatements, hd, lastDeclared?]
  | some j =>
      rw [declarationStatements_of_some hd, ← List.singleton_append, lastDeclared?_append, lastDeclared?_singleton,
        lastDeclared?_eq_none (by simp [Declares]), Option.none_or, Statement.declared?,
        show (declarationNode path d j).identity = j from rfl]
      by_cases hj : j = i
      · subst hj
        rw [if_pos rfl, if_pos rfl]
      · rw [if_neg hj, if_neg (by simpa using hj)]

/-- A node is written last as it is declared last. -/
theorem lastDeclared?_declarationsStatements (ds : List Declaration) :
    lastDeclared? (declarationsStatements path built ds) i =
      (lastDeclaration? i ds).map fun d => declarationNode path d i := by
  induction ds generalizing built with
  | nil => rfl
  | cons d rest ih =>
      rw [declarationsStatements, lastDeclared?_append, ih, lastDeclared?_declarationStatements, lastDeclaration?]
      cases lastDeclaration? i rest with
      | some later => rfl
      | none => split <;> rfl

theorem lastRelated?_declarationStatements (d : Declaration) :
    lastRelated? (declarationStatements path built d) ⟨.defines, (.file, path), i⟩ =
      if nodeOf? d = some i then some ([locationOf path d], .obj []) else none := by
  cases hd : nodeOf? d with
  | none => simp [declarationStatements, hd, lastRelated?]
  | some j =>
      -- the owner of a declaration is no file
      have hrest : ¬ Relates
          ((((ownerOf? built d).filter (· ≠ j)).toList.map fun owner =>
            Statement.relate ⟨.defines, owner, j⟩ [locationOf path d] (.obj [])) ++
          ((superclassOf? d).toList.map fun name =>
            Statement.relate ⟨.inherits, j, (.classDecl, name)⟩ [locationOf path d] (.obj [])))
          ⟨.defines, (.file, path), i⟩ := by
        rintro ⟨_, _, h⟩
        simp only [List.mem_append, List.mem_map, Option.mem_toList, Option.filter_eq_some_iff, Statement.relate.injEq,
          Link.mk.injEq] at h
        rcases h with ⟨owner, ⟨howner, _⟩, ⟨_, rfl, _⟩, _⟩ | ⟨name, _, ⟨hkind, _⟩, _⟩
        · exact absurd (ownerOf?_kind howner) (by simp)
        · exact absurd hkind (by simp)
      rw [declarationStatements_of_some hd, ← List.singleton_append, lastRelated?_append, ← List.singleton_append,
        lastRelated?_append, lastRelated?_eq_none hrest, lastRelated?_singleton, lastRelated?_singleton, Option.none_or,
        Statement.related?, Statement.related?, Option.or_none]
      by_cases hj : j = i
      · subst hj
        rw [if_pos rfl, if_pos rfl]
      · rw [if_neg (by simpa using hj), if_neg (by simpa using hj)]

/-- The definition of a node is located last where it is declared last. -/
theorem lastRelated?_declarationsStatements (ds : List Declaration) :
    lastRelated? (declarationsStatements path built ds) ⟨.defines, (.file, path), i⟩ =
      (lastDeclaration? i ds).map fun d => ([locationOf path d], .obj []) := by
  induction ds generalizing built with
  | nil => rfl
  | cons d rest ih =>
      rw [declarationsStatements, lastRelated?_append, ih, lastRelated?_declarationStatements, lastDeclaration?]
      cases lastDeclaration? i rest with
      | some later => rfl
      | none => split <;> rfl

theorem relates_inherits_declarations {ds : List Declaration} {j : Identity} :
    Relates (declarationsStatements path built ds) ⟨.inherits, i, j⟩ ↔
      ∃ d ∈ ds, nodeOf? d = some i ∧ ∃ name, superclassOf? d = some name ∧ j = (.classDecl, name) := by
  induction ds generalizing built with
  | nil => simp [declarationsStatements, Relates]
  | cons d rest ih =>
      rw [declarationsStatements, relates_append, ih, List.exists_mem_cons_iff]
      refine or_congr ?_ Iff.rfl
      cases hd : nodeOf? d with
      | none => simp [declarationStatements, hd, Relates]
      | some k =>
          simp only [Relates, declarationStatements_of_some hd, List.mem_cons, List.mem_append, List.mem_map,
            Option.mem_toList, Statement.relate.injEq, Link.mk.injEq, reduceCtorEq, false_and, and_false, false_or,
            exists_false, true_and, Option.some.injEq]
          constructor
          · rintro ⟨_, _, name, hname, ⟨rfl, rfl⟩, _⟩
            exact ⟨rfl, name, hname, rfl⟩
          · rintro ⟨rfl, name, hname, rfl⟩
            exact ⟨_, _, name, hname, ⟨rfl, rfl⟩, rfl, rfl⟩

theorem aside_requireStatements {requires : List String} {s : Statement}
    (h : s ∈ requireStatements path known requires) : s.Aside := by
  induction requires generalizing known with
  | nil => exact absurd h (by simp [requireStatements])
  | cons required rest ih =>
      rcases List.mem_cons.1 h with rfl | h
      · exact ⟨by simp, by simp⟩
      · exact ih h

/-- A file says what it declares, and relates other things besides. -/
theorem exists_fileStatements_eq (path : String) (category : Category) (o : Outline) (built : Identity → Bool)
    (known : String → Bool) :
    ∃ rest, fileStatements path category o built known =
        .declare (fileNode path category o) ::
          (declarationsStatements path (fun i => built i || i = (.file, path)) o.declarations ++ rest) ∧
      ∀ s ∈ rest, s.Aside := by
  refine ⟨(mixinStatements .includes ((containerIn? o.declarations).getD (.file, path)) o.includes ++
      mixinStatements .extendsModule ((containerIn? o.declarations).getD (.file, path)) o.extensions) ++
    (requireStatements path (fun f => known f || f = path) o.requires ++
      (relativeStatements path o.requireRelatives ++
        (classIn? o.declarations).elim [] fun owner => associationStatements path owner o.associations)), ?_, ?_⟩
  · simp only [fileStatements, structureStatements, List.cons_append, List.append_assoc]
  · intro s hs
    simp only [mixinStatements, relativeStatements, List.mem_append, List.mem_map] at hs
    rcases hs with (⟨name, _, rfl⟩ | ⟨name, _, rfl⟩) | h | ⟨relative, _, rfl⟩ | h
    · exact ⟨by simp, by simp⟩
    · exact ⟨by simp, by simp⟩
    · exact aside_requireStatements h
    · exact ⟨by simp, by simp⟩
    · cases hc : classIn? o.declarations with
      | none => exact absurd h (by simp [hc])
      | some owner =>
          simp only [hc, Option.elim_some, associationStatements, List.mem_map] at h
          obtain ⟨a, _, rfl⟩ := h
          cases ha : a.word <;> exact ⟨by simp [AssociationWord.edgeKind], by simp [AssociationWord.edgeKind]⟩

theorem not_declares_of_aside {rest : List Statement} (h : ∀ s ∈ rest, s.Aside) : ¬ Declares rest i :=
  fun ⟨_, hmem, _⟩ => h _ hmem

theorem not_relates_of_aside {rest : List Statement} (h : ∀ s ∈ rest, s.Aside) {l : Link}
    (hkind : l.kind = .defines ∨ l.kind = .inherits) : ¬ Relates rest l := by
  rintro ⟨locations, metadata, hmem⟩
  rcases hkind with hkind | hkind
  · exact (h _ hmem).1 hkind
  · exact (h _ hmem).2 hkind

/-- The node of a declaration as a file writes it last. -/
theorem lastDeclared?_fileStatements (hi : i ≠ (.file, path)) :
    lastDeclared? (fileStatements path category o built known) i =
      (lastDeclaration? i o.declarations).map fun d => declarationNode path d i := by
  obtain ⟨rest, heq, haside⟩ := exists_fileStatements_eq path category o built known
  have hfile : (Statement.declare (fileNode path category o)).declared? i = none := if_neg fun h => hi h.symm
  rw [heq, ← List.singleton_append, lastDeclared?_append, lastDeclared?_append, lastDeclared?_singleton, hfile,
    lastDeclared?_eq_none (not_declares_of_aside haside), Option.none_or, Option.or_none,
    lastDeclared?_declarationsStatements]

/-- The location that a file gives last for what it defines. -/
theorem lastRelated?_defines :
    lastRelated? (fileStatements path category o built known) ⟨.defines, (.file, path), i⟩ =
      (lastDeclaration? i o.declarations).map fun d => ([locationOf path d], .obj []) := by
  obtain ⟨rest, heq, haside⟩ := exists_fileStatements_eq path category o built known
  rw [heq, ← List.singleton_append, lastRelated?_append, lastRelated?_append, lastRelated?_singleton,
    lastRelated?_eq_none (not_relates_of_aside haside (Or.inl rfl)), Option.none_or,
    lastRelated?_declarationsStatements]
  exact Option.or_none

theorem relates_inherits_iff {j : Identity} :
    Relates (fileStatements path category o built known) ⟨.inherits, i, j⟩ ↔ Inherits o i j := by
  obtain ⟨rest, heq, haside⟩ := exists_fileStatements_eq path category o built known
  rw [heq, relates_cons, relates_append, relates_inherits_declarations, Inherits]
  constructor
  · rintro (⟨_, _, h⟩ | h | h)
    · exact absurd h (by simp)
    · exact h
    · exact absurd h (not_relates_of_aside haside (Or.inr rfl))
  · exact fun h => Or.inr (Or.inl h)

end

/-! ## What is found of a superclass -/

section

variable {g : Graph} {id : Int} {i : Identity} {path : String}

/-- The superclass that is found is one that the file states. -/
theorem superclassFrom?_eq_some (hg : g.WellFormed) (hid : g.Names id i) {name : String}
    (h : superclassFrom? g id path = some name) : ∃ kind, g.Holds ⟨.inherits, i, (kind, name)⟩ path := by
  obtain ⟨e, he, hfound⟩ := List.exists_of_findSome?_eq_some h
  obtain ⟨he, hsource⟩ := List.mem_filter.1 he
  obtain ⟨hheld, hfound⟩ := Option.ite_none_right_eq_some.1 hfound
  obtain ⟨target, htarget, rfl⟩ := Option.map_eq_some_iff.1 hfound
  obtain ⟨htarget, hsame⟩ := (Graph.node?_eq_some_iff hg _ _).1 htarget
  rw [Bool.and_eq_true, decide_eq_true_eq, List.contains_iff_mem] at hheld
  refine ⟨target.kind, e, he, ⟨hheld.1, ?_, ⟨target, htarget, hsame, rfl⟩⟩, hheld.2⟩
  rw [of_decide_eq_true hsource]
  exact hid

/-- A superclass is found if the file states one. -/
theorem superclassFrom?_ne_none (hg : g.WellFormed) (hid : g.Names id i) {j : Identity}
    (h : g.Holds ⟨.inherits, i, j⟩ path) : superclassFrom? g id path ≠ none := by
  obtain ⟨e, he, ⟨hkind, hsource, target, htarget, hsame, _⟩, hheld⟩ := h
  have hfrom : e ∈ g.edgesFrom id := List.mem_filter.2 ⟨he, decide_eq_true (hsource.id_eq hg hid)⟩
  have hfound := (Graph.node?_eq_some_iff hg e.target target).2 ⟨htarget, hsame⟩
  intro hnone
  have hno := List.findSome?_eq_none_iff.1 hnone e hfrom
  rw [if_pos (by simp [show e.kind = .inherits from hkind, hheld]), hfound] at hno
  exact absurd hno (by simp)

end

/-! ## What a node says of its declaration -/

/-- The fields of the metadata of a class, module or method. -/
def describedFields (visibility : Visibility) (signature superclass : Option String) (classMethod : Bool) :
    List (String × Json) :=
  [("visibility", .str visibility.name)] ++ (signature.map fun s => ("signature", Json.str s)).toList ++
    (superclass.map fun s => ("superclass", Json.str s)).toList ++
    (if classMethod then [("class_method", .bool true)] else [])

/-- Whether metadata mark a class-level method. -/
def marksClassMethod (metadata : Json) : Bool :=
  match metadata.get? "class_method" with
  | some (.bool true) => true
  | _ => false

theorem metadataOf_eq (d : Declaration) :
    metadataOf d =
      .record (describedFields d.visibility d.signature d.superclass (d.kind = .method && d.isClassMethod)) := rfl

section

variable (v : Visibility) (signature superclass : Option String) (classMethod : Bool)

theorem nodup_describedFields : ((describedFields v signature superclass classMethod).map Prod.fst).Nodup := by
  cases signature <;> cases superclass <;> cases classMethod <;> simp [describedFields]

theorem get?_superclass :
    (Json.record (describedFields v signature superclass classMethod)).canonical.get? "superclass" =
      superclass.map Json.str := by
  rw [Json.get?_canonical (nodup_describedFields v signature superclass classMethod)]
  cases signature <;> cases superclass <;> cases classMethod <;> rfl

theorem marksClassMethod_described :
    marksClassMethod (Json.record (describedFields v signature superclass classMethod)).canonical = classMethod := by
  rw [marksClassMethod, Json.get?_canonical (nodup_describedFields v signature superclass classMethod)]
  cases signature <;> cases superclass <;> cases classMethod <;> rfl

/-- The other fields depend on visibility and signature only. -/
theorem get?_described_of_ne {field : String} (hsuperclass : field ≠ "superclass") (hmark : field ≠ "class_method")
    (superclass' : Option String) (classMethod' : Bool) :
    (Json.record (describedFields v signature superclass classMethod)).canonical.get? field =
      (Json.record (describedFields v signature superclass' classMethod')).canonical.get? field := by
  have hrest : ∀ (superclass : Option String) (classMethod : Bool),
      (describedFields v signature superclass classMethod).lookup field =
        ([("visibility", Json.str v.name)] ++
          (signature.map fun s => ("signature", Json.str s)).toList).lookup field := by
    intro superclass classMethod
    rw [describedFields, List.append_assoc, List.lookup_append]
    refine Option.or_eq_left_of_none (Json.lookup_eq_none_of_not_mem ?_)
    cases superclass <;> cases classMethod <;> simp [hsuperclass, hmark]
  rw [Json.get?_canonical (nodup_describedFields _ _ _ _), Json.get?_canonical (nodup_describedFields _ _ _ _), hrest,
    hrest]

/-- Metadata with the same visibility and signature are equal if superclass and mark are. -/
theorem described_eq_iff (superclass' : Option String) (classMethod' : Bool) :
    (Json.record (describedFields v signature superclass classMethod)).canonical =
        (Json.record (describedFields v signature superclass' classMethod')).canonical ↔
      superclass = superclass' ∧ classMethod = classMethod' := by
  constructor
  · intro h
    have hsuperclass := get?_superclass v signature superclass classMethod
    have hmark := marksClassMethod_described v signature superclass classMethod
    rw [h, get?_superclass] at hsuperclass
    rw [h, marksClassMethod_described] at hmark
    refine ⟨?_, hmark.symm⟩
    exact Option.map_injective (fun _ _ hs => Json.str.inj hs) hsuperclass.symm
  · rintro ⟨rfl, rfl⟩
    rfl

end

/-- A node that is rebuilt where a symbol is stored for its line. -/
theorem redefinition_eq {c : Catalog} {g : Graph} {node : Node} {kind : SymbolKind} {path : String} {line : Nat}
    {s : Symbol} (h : (c.symbolsIn path).find? (fun s => s.kind = kind && s.startLine = line) = some s) :
    (redefinition c g node kind path line).anchor = some ⟨path, s.startLine, s.endLine⟩ ∧
      (redefinition c g node kind path line).metadata =
        .record (describedFields s.visibility s.signature (superclassFrom? g node.id path)
          (marksClassMethod node.metadata)) := by
  have hmark : (match node.metadata.get? "class_method" with
      | some (.bool true) => [("class_method", Json.bool true)]
      | _ => []) = if marksClassMethod node.metadata then [("class_method", Json.bool true)] else [] := by
    unfold marksClassMethod
    split <;> rfl
  unfold redefinition
  rw [h]
  exact ⟨rfl, congrArg (fun mark => Json.record (_ ++ mark)) hmark⟩

/-! ## The node that moves -/

section

variable {c : Catalog} {o : String} {w : Work}

theorem Steady.refl (hw : w.Sound) : Steady w w :=
  ⟨hw, rfl, rfl, fun _ _ _ => Iff.rfl, fun _ _ => Iff.rfl, fun _ _ h => h⟩

theorem Steady.holds {w' : Work} (h : Steady w w') (l : Link) (x : String) :
    w'.graph.Holds l x ↔ w.graph.Holds l x := by
  simp only [Graph.Holds, h.edges]
  exact exists_congr fun e => and_congr_right fun he => by rw [h.joins e he]

/-- A node that the unit has not written again and that is anchored in the end, is as another file defines it. -/
theorem stored_settle (hg : w.graph.WellFormed) {n m : Node} (hname : w.graph.Names n.id n.identity)
    (huntouched : n.id ∉ w.touched) (hm : m ∈ (settle c o n w).graph.nodes) (hid : m.id = n.id)
    (hanchor : m.anchor ≠ none) : ∃ d, definedElsewhere? c w.graph o n = some d ∧ m = d.stored m.id := by
  unfold settle at hm
  rw [if_neg (by simpa using huntouched)] at hm
  cases hd : definedElsewhere? c w.graph o n with
  | some d =>
      simp only [hd] at hm
      refine ⟨d, rfl, ?_⟩
      obtain ⟨-, -, -, -, hsame, -⟩ := definedElsewhere?_eq_some hg hd
      rcases (Graph.mem_upsertNode hg d m).1 hm with heq | ⟨hold, hne⟩
      · rw [heq, NewNode.stored_id]
      · obtain ⟨k, hk, hkid, hki⟩ := hname
        rw [hg.node_eq_of_id hold hk (hid.trans hkid.symm), hki, hsame] at hne
        exact absurd rfl hne
  | none =>
      simp only [hd] at hm
      split at hm
      · rcases (Graph.mem_demoteNode _ _ _).1 hm with ⟨_, hne⟩ | ⟨k, _, _, heq⟩
        · exact absurd hid hne
        · rw [heq] at hanchor
          exact absurd rfl hanchor
      · exact absurd hid ((Graph.mem_deleteNode _ _ _).1 hm).2

/-- A node that is not among those that are dealt with stays as it was. -/
theorem mem_of_mem_settleAll (hw : w.Sound) {rest : List Node} (hl : Lists w.graph rest) {m : Node}
    (hm : m ∈ (settleAll c o rest w).graph.nodes) (hother : m.id ∉ rest.map Node.id) : m ∈ w.graph.nodes := by
  cases remains_settleAll hw c o hl hm with
  | kept mem _ => exact mem
  | moved _ _ n own id => exact absurd (id ▸ List.mem_map_of_mem own) hother
  | demoted _ _ own => exact absurd own hother

theorem stored_settleAll (hw : w.Sound) {previous : List Node} (hl : Lists w.graph previous) {n m : Node}
    (hn : n ∈ previous) (huntouched : n.id ∉ w.touched) (hm : m ∈ (settleAll c o previous w).graph.nodes)
    (hid : m.id = n.id) (hanchor : m.anchor ≠ none) :
    ∃ w', Steady w w' ∧ w'.graph.Names n.id n.identity ∧
      ∃ d, definedElsewhere? c w'.graph o n = some d ∧ m = d.stored m.id := by
  induction previous generalizing w with
  | nil => exact absurd hn (by simp)
  | cons node rest ih =>
      have hs := settled_settle hw.graph c o node
      have hfirst := hs.steady hw (hl.names node List.mem_cons_self)
      have hrest := hs.lists hw.graph hl
      have hnodup := hl.nodup
      rw [List.map_cons, List.nodup_cons] at hnodup
      rw [settleAll_cons] at hm
      rcases List.mem_cons.1 hn with rfl | hn
      · have hname := hl.names n List.mem_cons_self
        have hm := mem_of_mem_settleAll hfirst.sound hrest hm (hid ▸ hnodup.1)
        exact ⟨w, .refl hw, hname, stored_settle hw.graph hname huntouched hm hid hanchor⟩
      · obtain ⟨w', hsteady, hrebuilt⟩ := ih hfirst.sound hrest hn (hfirst.touched ▸ huntouched) hm
        exact ⟨w', hfirst.trans hsteady, hrebuilt⟩

end

section

variable {c : Catalog} {g : Graph} {cache : BuildCache} {path : String} {statements : List Statement} {n m : Node}
  {a b : Anchor}

/-- A node that is anchored to another file after the unit of a file is not declared by it. -/
theorem not_declares_of_anchor (hw : (start path g cache).Sound)
    (hstatements : ∀ k, Statement.declare k ∈ statements → k.DefinedIn path)
    (hm : m ∈ (unit c path g cache (g.anchoredTo path) statements).graph.nodes) (hb : m.anchor = some b)
    (hne : b.path ≠ path) : ¬ Declares statements m.identity := by
  cases emerges_unit hw List.filter_sublist hm with
  | declared k mem stored => exact absurd ((hstatements k mem).path_eq stored hb) hne
  | kept _ undeclared _ => exact undeclared
  | referred _ undeclared _ _ _ _ => exact undeclared
  | moved _ _ _ _ undeclared _ _ _ _ _ _ _ => exact undeclared
  | demoted _ _ _ undeclared _ _ _ => exact undeclared

/-- A node that moves to another file is rebuilt from a `defines` edge of that file, in a graph in which everybody holds
what they hold in the end. -/
theorem moved_unit (hw : (start path g cache).Sound)
    (hstatements : ∀ k, Statement.declare k ∈ statements → k.DefinedIn path) (hn : n ∈ g.nodes) (ha : n.anchor = some a)
    (hpath : a.path = path) (hm : m ∈ (unit c path g cache (g.anchoredTo path) statements).graph.nodes)
    (hsame : m.identity = n.identity) (hb : m.anchor = some b) (hne : b.path ≠ path) :
    ∃ kind line before, definingKind? m.kind = some kind ∧
      (∃ e ∈ (unit c path g cache (g.anchoredTo path) statements).graph.edges,
        (unit c path g cache (g.anchoredTo path) statements).graph.Joins e ⟨.defines, (.file, b.path), m.identity⟩ ∧
          e.locations.findSome? locationLine? = some line) ∧
      Graph.WellFormed before ∧ before.Names n.id n.identity ∧
      (∀ l x, before.Holds l x ↔ (unit c path g cache (g.anchoredTo path) statements).graph.Holds l x) ∧
      m = (redefinition c before n kind b.path line).stored m.id := by
  have hp : (g.anchoredTo path).Sublist g.nodes := List.filter_sublist
  have hsound := sound_applyAll (o := path) hw statements
  have hlists := lists_applyAll hw hp statements
  have hend := steady_unit hw hp c statements
  have hown : n ∈ g.anchoredTo path := List.mem_filter.2 ⟨hn, by simp [ha, hpath]⟩
  have hname := names_applyAll (o := path) hw (Graph.names_of_mem hn) statements
  have hid : m.id = n.id := by
    have hshrinks := shrinks_settleAll (sound_releaseStale hsound path).graph c path hlists
    rw [unit, prune_eq] at hm
    have hback := (Graph.names_releaseAll _ _ _ _ _).1 (hshrinks.names _ _ (Graph.names_of_mem hm))
    rw [hsame] at hback
    exact hback.id_eq hsound.graph hname
  have hundeclared := not_declares_of_anchor hw hstatements hm hb hne
  have huntouched : n.id ∉ (releaseStale path (applyAll path (start path g cache) statements)).touched := by
    obtain ⟨k, hk, hkid, hki⟩ := hname
    rw [hsame, ← hki] at hundeclared
    rw [← hkid]
    exact fun h => hundeclared ((touched_of_declares hw hk).1 h)
  rw [unit, prune_eq] at hm
  obtain ⟨w', hsteady, hnamed, d, hd, hstored⟩ :=
    stored_settleAll (sound_releaseStale hsound path) hlists hown huntouched hm hid (by rw [hb]; simp)
  simp only [definedElsewhere?, Option.bind_eq_some_iff, Option.map_eq_some_iff] at hd
  obtain ⟨kind, hkind, ⟨q, line⟩, hfind, rfl⟩ := hd
  obtain ⟨e, he, hdefinition⟩ := List.exists_of_findSome?_eq_some hfind
  obtain ⟨he, htarget⟩ := List.mem_filter.1 he
  obtain ⟨hk, hsource, _, hline⟩ := (definition?_eq_some_iff hsteady.sound.graph path e q line).1 hdefinition
  obtain rfl : b.path = q := (redefinition_definedIn c w'.graph n kind q line).path_eq hstored hb
  have hjoin : w'.graph.Joins e ⟨.defines, (.file, b.path), m.identity⟩ := by
    refine ⟨hk, hsource, ?_⟩
    rw [of_decide_eq_true htarget, hsame]
    exact hnamed
  rw [hsteady.edges] at he
  refine ⟨kind, line, w'.graph, ?_, ⟨e, ?_, ?_, hline⟩, hsteady.sound.graph, hnamed, ?_, hstored⟩
  · rw [show m.kind = n.kind from congrArg Prod.fst hsame]
    exact hkind
  · rw [hend.edges]
    exact he
  · exact (hend.joins e he _).2 ((hsteady.joins e he _).1 hjoin)
  · intro l x
    rw [hsteady.holds, hend.holds]

end

end CodeAtlas.Projection
