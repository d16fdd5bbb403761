import CodeAtlas.Proofs.Indexing.History
import CodeAtlas.Proofs.Outline.Shape
import CodeAtlas.Proofs.Outline.Starts
/-!
# Definitions that are taken up by another file

When a class, module or method goes out of the file that its node is anchored to, and another file defines it too, the
node moves there. It gets the lines, the visibility and the signature that the other file wrote for it last. Its
superclass is one that this file states for the class in some place, and the mark of a class-level method is the one
that the node had. So it is restored as the other file wrote it, if this file gives the class one superclass throughout
and if the key of the method names an owner, which tells whether the method is class-level (`rebuilt_of_moved`). For a
method without an owner it need not be (`exists_metadata_ne_written`).
-/

namespace CodeAtlas

open Projection

namespace Indexing

/-! ## What an identity tells -/

/-- A method whose key names its owner, or no method at all. -/
def Owned (i : Identity) : Prop := i.1 = .method → '.' ∈ i.2.toList ∨ '#' ∈ i.2.toList

/-- Whether a key is that of a class-level method of an owner. -/
def pointed (i : Identity) : Bool := i.1 = .method && i.2.toList.contains '.'

/-- The outline gives the node with the identity `i` one superclass throughout, or none throughout. -/
def OneSuperclass (o : Outline) (i : Identity) : Prop :=
  ∀ x ∈ o.declarations, ∀ y ∈ o.declarations, nodeOf? x = some i → nodeOf? y = some i → x.superclass = y.superclass

section

variable {o : Outline} {i : Identity} {x : Declaration}

/-- The key of a method with an owner tells whether it is class-level. -/
theorem isClassMethod_eq_pointed (hx : Outline.Formed x) (hnode : nodeOf? x = some i) (howned : Owned i) :
    (x.kind = .method && x.isClassMethod : Bool) = pointed i := by
  unfold nodeOf? at hnode
  split at hnode
  next hkind =>
    obtain rfl := Option.some.inj hnode
    rw [hkind]
    rfl
  next hkind =>
    obtain rfl := Option.some.inj hnode
    rw [hkind]
    rfl
  next hkind =>
    obtain rfl := Option.some.inj hnode
    have hpoint : '.' ∉ x.name.toList := fun h => absurd (hx.name hkind _ h) (by decide)
    have hhash : '#' ∉ x.name.toList := fun h => absurd (hx.name hkind _ h) (by decide)
    unfold Owned at howned
    unfold pointed
    rw [hkind]
    rw [methodKey, bareName_of_bare hpoint] at howned ⊢
    cases howner : x.enclosing with
    | none =>
        rw [howner] at howned
        exact absurd (howned rfl) (by simp [hpoint, hhash])
    | some owner =>
        have howner := hx.enclosing owner howner
        cases x.isClassMethod <;> simp [hpoint, howner]
  next => exact absurd hnode (by simp)

/-- Where a class is given one superclass throughout, this is the one that its last declaration states. -/
theorem superclass_eq_of_one (hone : OneSuperclass o i) (hx : lastDeclaration? i o.declarations = some x)
    (hformed : Outline.Formed x) {superclass : Option String}
    (hstated : ∀ name, superclass = some name → Inherits o i (.classDecl, name))
    (hunstated : superclass = none → ∀ j, ¬ Inherits o i j) : superclass = x.superclass := by
  obtain ⟨hmem, hnode⟩ := lastDeclaration?_eq_some hx
  cases superclass with
  | some name =>
      obtain ⟨y, hy, hsame, name', hname, heq⟩ := hstated name rfl
      obtain ⟨-, hname⟩ := Option.ite_none_right_eq_some.1 hname
      rw [hone x hmem y hy hnode hsame, hname, (Prod.mk.inj heq).2]
  | none =>
      by_cases hclass : x.kind = .classDecl
      · cases hname : x.superclass with
        | none => rfl
        | some name =>
            have hinherits : Inherits o i (.classDecl, name) :=
              ⟨x, hmem, hnode, name, by rw [superclassOf?, if_pos hclass, hname], rfl⟩
            exact absurd hinherits (hunstated rfl _)
      · exact (hformed.superclass hclass).symm

end

/-! ## Rebuilding a node -/

section

variable {S : String → Option PendingFile} {d : Desk} {path : String} {file : PendingFile} {i : Identity}
  {x : Declaration}

theorem definingKind?_of_nodeOf? (h : nodeOf? x = some i) : definingKind? i.1 = some x.kind := by
  unfold nodeOf? at h
  cases hk : x.kind <;> rw [hk] at h <;> simp only [Option.some.injEq, reduceCtorEq] at h <;> subst h <;> rfl

/-- The symbol that is stored for the line of a declaration is that of the declaration. -/
theorem exists_symbol (h : Remembers S d) (hfile : S path = some file)
    (hx : lastDeclaration? i (declarationsOf file) = some x) :
    ∃ s, (d.store.catalog.symbolsIn path).find? (fun s => s.kind = x.kind && s.startLine = x.startLine) = some s ∧
      unnumbered s = symbolOf path x := by
  obtain ⟨hmem, hnode⟩ := lastDeclaration?_eq_some hx
  have hprojected : x.kind.isProjected = true := (nodeOf?_isSome_iff x).1 (by rw [hnode]; rfl)
  have hrows := h.rows path file hfile
  have hin : ∀ s, s ∈ d.store.catalog.symbolsIn path ↔ s ∈ d.store.catalog.symbolsOf path := fun s => List.mem_mergeSort
  cases hfound : (d.store.catalog.symbolsIn path).find? fun s => s.kind = x.kind && s.startLine = x.startLine with
  | none =>
      have hrow : symbolOf path x ∈ (d.store.catalog.symbolsOf path).map unnumbered := by
        rw [hrows]
        exact List.mem_map_of_mem hmem
      obtain ⟨s, hs, heq⟩ := List.mem_map.1 hrow
      have hno := List.find?_eq_none.1 hfound s ((hin s).2 hs)
      rw [show s.kind = x.kind from congrArg Symbol.kind heq,
        show s.startLine = x.startLine from congrArg Symbol.startLine heq] at hno
      exact absurd hno (by simp)
  | some s =>
      have hrow : unnumbered s ∈ (declarationsOf file).map (symbolOf path) := by
        rw [← hrows]
        exact List.mem_map_of_mem ((hin s).1 (List.mem_of_find?_eq_some hfound))
      obtain ⟨y, hy, heq⟩ := List.mem_map.1 hrow
      have hasked := List.find?_some hfound
      rw [Bool.and_eq_true, decide_eq_true_eq, decide_eq_true_eq] at hasked
      have hkind : y.kind = x.kind := (congrArg Symbol.kind heq).trans hasked.1
      have hline : y.startLine = x.startLine := (congrArg Symbol.startLine heq).trans hasked.2
      have hsame : y = x := Outline.eq_of_startLine_eq hy hmem (by rw [hkind]; exact hprojected) hprojected hline
      exact ⟨s, rfl, by rw [← heq, hsame]⟩

/-- A file that is committed writes a node as it declares it last. -/
theorem exists_written (hd : d.Sound) (now : Int) {o : Outline} (hx : lastDeclaration? i o.declarations = some x) :
    ∃ k ∈ (commitFile now d file o).1.store.graph.nodes,
      k.identity = i ∧ k = (declarationNode file.path x i).stored k.id := by
  obtain ⟨hmem, hnode⟩ := lastDeclaration?_eq_some hx
  obtain ⟨c, hafter, -⟩ := commitFile_eq hd now file o
  have hp : (d.store.graph.anchoredTo file.path).Sublist d.store.graph.nodes := List.filter_sublist
  have hdeclares : Declares ((fileChange file o).statements ⟨d.store.graph, d.cache⟩) i :=
    (declares_fileStatements i).2 (Or.inr ⟨x, hmem, hnode⟩)
  obtain ⟨id, k, hk, -, hi⟩ := has_unit_of_declares (hd.start file.path) hp c hdeclares
  have hnotFile : i ≠ (.file, file.path) := fun h => (nodeOf?_kind hnode).2.2.2 (congrArg Prod.fst h)
  have hlast : lastDeclared? ((fileChange file o).statements ⟨d.store.graph, d.cache⟩) i =
      some (declarationNode file.path x i) :=
    (lastDeclared?_fileStatements hnotFile).trans (congrArg _ hx)
  rw [hafter]
  exact ⟨k, hk, hi, stored_unit (hd.start file.path) hp hlast hk hi⟩

end

/-- The node `n` was taken up as `m` by a file with the outline `o` that had written it as `k`. Lines and all fields of
the metadata are as in `k` but for two: the superclass is one that the file states for the node, if it states any, and
the mark of a class-level method is that of `n`. These two are as in `k` as well, where the file states one superclass
and the key names an owner. -/
structure Rebuilt (o : Outline) (n k m : Node) : Prop where
  identity : k.identity = m.identity
  anchor : m.anchor = k.anchor
  fields : ∀ field, field ≠ "superclass" → field ≠ "class_method" → m.metadata.get? field = k.metadata.get? field
  mark : marksClassMethod m.metadata = marksClassMethod n.metadata
  stated : ∀ name, m.metadata.get? "superclass" = some (.str name) → Inherits o m.identity (.classDecl, name)
  unstated : m.metadata.get? "superclass" = none → ∀ j, ¬ Inherits o m.identity j
  metadata : m.metadata = k.metadata ↔
    m.metadata.get? "superclass" = k.metadata.get? "superclass" ∧
      marksClassMethod n.metadata = marksClassMethod k.metadata
  restored : OneSuperclass o m.identity → Owned m.identity → m.metadata = k.metadata

theorem rebuilt_of_described {o : Outline} {n k m : Node} (hidentity : k.identity = m.identity)
    (hanchor : m.anchor = k.anchor) {v : Visibility} {signature superclass written : Option String} {mark : Bool}
    (hm : m.metadata = (Json.record (describedFields v signature superclass (marksClassMethod n.metadata))).canonical)
    (hk : k.metadata = (Json.record (describedFields v signature written mark)).canonical)
    (hstated : ∀ name, superclass = some name → Inherits o m.identity (.classDecl, name))
    (hunstated : superclass = none → ∀ j, ¬ Inherits o m.identity j)
    (hone : OneSuperclass o m.identity → superclass = written)
    (howned : Owned m.identity → marksClassMethod n.metadata = mark) : Rebuilt o n k m where
  identity := hidentity
  anchor := hanchor
  fields field hsuperclass hmark := by
    rw [hm, hk]
    exact get?_described_of_ne v signature _ _ hsuperclass hmark _ _
  mark := by rw [hm, marksClassMethod_described]
  stated name h := by
    rw [hm, get?_superclass] at h
    obtain ⟨_, hname, heq⟩ := Option.map_eq_some_iff.1 h
    rw [← Json.str.inj heq]
    exact hstated _ hname
  unstated h := by
    rw [hm, get?_superclass, Option.map_eq_none_iff] at h
    exact hunstated h
  metadata := by
    rw [hm, hk, described_eq_iff, get?_superclass, get?_superclass, marksClassMethod_described]
    exact and_congr_left fun _ => (Option.map_injective fun _ _ h => Json.str.inj h).eq_iff.symm
  restored hsuperclass hkey := by rw [hm, hk, hone hsuperclass, howned hkey]

section

variable {events : List FileEvent} {event : FileEvent} {n m : Node} {a b : Anchor}

/-- A node that is taken up by another file is put together from the last declaration of that file, from a superclass
that the file states, and from the mark that the node had. -/
theorem exists_declaration_of_moved (hn : n ∈ (deskAfter events).store.graph.nodes) (ha : n.anchor = some a)
    (hevent : event.path? = some a.path) (hm : m ∈ (deskAfter (events ++ [event])).store.graph.nodes)
    (hsame : m.identity = n.identity) (hb : m.anchor = some b) (hmoved : b.path ≠ a.path) :
    ∃ file x superclass, lastFile? events b.path = some file ∧
      lastDeclaration? m.identity (declarationsOf file) = some x ∧
      m.anchor = some ⟨b.path, x.startLine, x.endLine⟩ ∧
      m.metadata =
        (Json.record (describedFields x.visibility x.signature superclass (marksClassMethod n.metadata))).canonical ∧
      (∀ name, superclass = some name → Inherits (.ofSource file.text) m.identity (.classDecl, name)) ∧
      (superclass = none → ∀ j, ¬ Inherits (.ofSource file.text) m.identity j) := by
  have hbefore := remembers_deskAfter events
  have hafter := remembers_deskAfter (events ++ [event])
  obtain ⟨c, statements, hunit, hwords⟩ := exists_unit_eq hbefore.sound hevent none
  rw [deskAfter_append, hunit] at hm hafter
  obtain ⟨kind, line, g, hkind, ⟨e, he, hjoin, hline⟩, hg, hname, hholds, hstored⟩ :=
    moved_unit (hbefore.sound.start a.path) hwords.nodes hn ha rfl hm hsame hb hmoved
  obtain ⟨file, x, hfile, hx, hlocations⟩ := hafter.lines e he b.path m.identity hjoin
  -- the line of the edge and the kind of the node are those of the declaration
  obtain rfl : line = x.startLine := by
    rw [hlocations, List.findSome?_singleton] at hline
    exact eq_of_locationLine?_lineOf hline
  obtain rfl : x.kind = kind := by
    have hdefining := definingKind?_of_nodeOf? (lastDeclaration?_eq_some hx).2
    exact Option.some.inj (hdefining.symm.trans hkind)
  obtain ⟨s, hs, hrow⟩ := exists_symbol hafter hfile hx
  obtain ⟨hanchor, hmetadata⟩ :
      (redefinition c g n x.kind b.path x.startLine).anchor = some ⟨b.path, s.startLine, s.endLine⟩ ∧
        (redefinition c g n x.kind b.path x.startLine).metadata = _ := redefinition_eq hs
  have hinherits : ∀ j, g.Holds ⟨.inherits, m.identity, j⟩ b.path ↔ Inherits (.ofSource file.text) m.identity j := by
    intro j
    rw [hholds]
    refine (hafter.inherits b.path m.identity j).trans ?_
    simp [hfile]
  rw [← hsame] at hname
  refine ⟨file, x, superclassFrom? g n.id b.path, ?_, hx, ?_, ?_, ?_, ?_⟩
  · rw [lastFile?_append, FileEvent.revise_of_ne] at hfile
    · exact hfile
    · rw [hevent]
      simpa using hmoved.symm
  · rw [hstored]
    refine hanchor.trans ?_
    rw [show s.startLine = x.startLine from congrArg Symbol.startLine hrow,
      show s.endLine = x.endLine from congrArg Symbol.endLine hrow]
  · rw [hstored]
    refine (congrArg Json.canonical hmetadata).trans ?_
    rw [show s.visibility = x.visibility from congrArg Symbol.visibility hrow,
      show s.signature = x.signature from congrArg Symbol.signature hrow]
  · intro name hfound
    obtain ⟨kind, hheld⟩ := superclassFrom?_eq_some hg hname hfound
    obtain ⟨y, hy, hnode, _, hsuperclass, heq⟩ := (hinherits _).1 hheld
    rw [Prod.mk.injEq] at heq
    exact ⟨y, hy, hnode, name, heq.2 ▸ hsuperclass, rfl⟩
  · intro hnone j hj
    exact superclassFrom?_ne_none hg hname ((hinherits j).2 hj) hnone

end

/-! ## Marks of class-level methods -/

theorem marksClassMethod_metadataOf (x : Declaration) :
    marksClassMethod (metadataOf x).canonical = (x.kind = .method && x.isClassMethod : Bool) := by
  rw [metadataOf_eq, marksClassMethod_described]

/-- A defined class, module or method is marked as its key tells, if it tells. -/
def Marked (n : Node) : Prop :=
  n.anchor ≠ none → (definingKind? n.kind).isSome = true → Owned n.identity →
    marksClassMethod n.metadata = pointed n.identity

theorem marked_declarationNode {source path : String} {x : Declaration} {i : Identity} {id : Int}
    (hx : x ∈ (Outline.ofSource source).declarations) (hnode : nodeOf? x = some i) :
    Marked ((declarationNode path x i).stored id) := by
  intro _ _ howned
  exact (marksClassMethod_metadataOf x).trans (isClassMethod_eq_pointed (Outline.formed_ofSource hx) hnode howned)

/-- One event keeps the marks: a node is written anew from a declaration, or keeps the mark when it moves. -/
theorem marked_append {events : List FileEvent} (h : ∀ n ∈ (deskAfter events).store.graph.nodes, Marked n)
    (event : FileEvent) {m : Node} (hm : m ∈ (deskAfter (events ++ [event])).store.graph.nodes) : Marked m := by
  have hbefore := remembers_deskAfter events
  have hafter := hm
  rw [deskAfter_append] at hm
  cases hpath : event.path? with
  | none =>
      cases event with
      | commit now file => exact absurd hpath (by simp [FileEvent.path?])
      | remove path => exact absurd hpath (by simp [FileEvent.path?])
      | renew => exact h m hm
  | some path =>
      obtain ⟨c, statements, hunit, hwords⟩ := exists_unit_eq hbefore.sound hpath none
      rw [hunit] at hm
      cases emerges_unit (hbefore.sound.start path) List.filter_sublist hm with
      | declared k mem stored =>
          rw [stored]
          rcases hwords.declared k mem with hfile | ⟨file, -, x, hx, i, hnode, rfl⟩
          · intro _ hkind
            rw [show (k.stored m.id).kind = k.kind from rfl, hfile] at hkind
            exact absurd hkind (by simp [definingKind?])
          · exact marked_declarationNode hx hnode
      | kept mem _ _ => exact h m mem
      | referred _ _ stored _ _ _ =>
          intro hanchor
          rw [stored] at hanchor
          exact absurd rfl hanchor
      | moved n mem same own _ _ d q elsewhere _ definition stored =>
          intro hanchor hkind howned
          obtain ⟨b, hb⟩ := Option.ne_none_iff_exists'.1 hanchor
          obtain ⟨a, ha, rfl⟩ : ∃ a, n.anchor = some a ∧ a.path = path := by
            obtain ⟨n', hn', hid⟩ := List.mem_map.1 own
            obtain ⟨hn', hhere⟩ := List.mem_filter.1 hn'
            rw [hbefore.sound.session.graph.node_eq_of_id hn' mem hid] at hhere
            obtain ⟨a, ha, hsame⟩ := (Option.any_eq_true _ _).1 hhere
            exact ⟨a, ha, of_decide_eq_true hsame⟩
          have hmoved : b.path ≠ a.path := by
            rw [definition.path_eq stored hb]
            exact elsewhere
          obtain ⟨_, _, _, -, -, -, hmetadata, -⟩ :=
            exists_declaration_of_moved mem ha hpath hafter same.symm hb hmoved
          rw [hmetadata, marksClassMethod_described, ← same]
          rw [← same] at howned
          exact h n mem (by simp [ha]) (by rwa [show n.kind = m.kind from congrArg Prod.fst same]) howned
      | demoted n _ _ _ _ _ eq =>
          intro hanchor
          rw [eq] at hanchor
          exact absurd rfl hanchor

/-- After every history, the nodes are marked as their keys tell. -/
theorem marked_deskAfter (events : List FileEvent) : ∀ n ∈ (deskAfter events).store.graph.nodes, Marked n := by
  induction events using List.reverseRecOn with
  | nil => exact fun n hn => absurd hn (by simp [deskAfter, emptyDesk, Store.clear, Graph.clear])
  | append_singleton events event ih => exact fun m hm => marked_append ih event hm

/-- Whatever was committed and removed before: when an event takes a node from the file that it is anchored to, and it
is anchored to another file afterwards, it is rebuilt from what the last commit of that file had written. -/
theorem rebuilt_of_moved (events : List FileEvent) (event : FileEvent) {n m : Node} {a b : Anchor}
    (hn : n ∈ (deskAfter events).store.graph.nodes) (ha : n.anchor = some a) (hevent : event.path? = some a.path)
    (hm : m ∈ (deskAfter (events ++ [event])).store.graph.nodes) (hsame : m.identity = n.identity)
    (hb : m.anchor = some b) (hmoved : b.path ≠ a.path) :
    ∃ before now file after, events = before ++ .commit now file :: after ∧ file.path = b.path ∧
      (∀ later ∈ after, later.path? ≠ some b.path) ∧
      ∃ k ∈ (deskAfter (before ++ [.commit now file])).store.graph.nodes, Rebuilt (.ofSource file.text) n k m := by
  obtain ⟨file, x, superclass, hlast, hx, hanchor, hmetadata, hstated, hunstated⟩ :=
    exists_declaration_of_moved hn ha hevent hm hsame hb hmoved
  obtain ⟨before, now, after, heq, hpath, hlater⟩ := exists_commit_of_lastFile hlast
  obtain ⟨k, hk, hidentity, hwritten⟩ := exists_written (remembers_deskAfter before).sound now hx
  have hk' : k ∈ (deskAfter (before ++ [.commit now file])).store.graph.nodes := by
    rw [deskAfter_append]
    exact hk
  have hkanchor : k.anchor = some ⟨file.path, x.startLine, x.endLine⟩ := by
    rw [hwritten]
    rfl
  have hkmetadata : k.metadata = (metadataOf x).canonical := by
    rw [hwritten]
    rfl
  rw [metadataOf_eq] at hkmetadata
  obtain ⟨hmem, hnode⟩ := lastDeclaration?_eq_some hx
  have hformed := Outline.formed_ofSource hmem
  have hkind : (definingKind? n.kind).isSome = true := by
    rw [show n.kind = m.identity.1 from (congrArg Prod.fst hsame).symm, definingKind?_of_nodeOf? hnode]
    rfl
  have hmark : Owned m.identity → marksClassMethod n.metadata = (x.kind = .method && x.isClassMethod : Bool) := by
    intro howned
    rw [isClassMethod_eq_pointed hformed hnode howned, hsame]
    exact marked_deskAfter events n hn (by simp [ha]) hkind (hsame ▸ howned)
  rw [← hpath, ← hkanchor] at hanchor
  exact ⟨before, now, file, after, heq, hpath, hlater, k, hk',
    rebuilt_of_described hidentity hanchor hmetadata hkmetadata hstated hunstated
      (fun hone => superclass_eq_of_one hone hx hformed hstated hunstated) hmark⟩

/-- A file with a text, as it is read. -/
def textFile (path text : String) : PendingFile :=
  { path := path, text := text, fingerprint := "", modified := none }

/-- A class with a superclass that another file opens again. -/
def openedTwice : List FileEvent := [
  .commit 0 (textFile "b.rb" "# A class.\nclass A < B\nend\n"),
  .commit 0 (textFile "a.rb" "class A\nend\n")]

theorem rebuilt_of_moved_openedTwice :
    ∃ n ∈ (deskAfter openedTwice).store.graph.nodes,
      ∃ m ∈ (deskAfter (openedTwice ++ [.remove "a.rb"])).store.graph.nodes,
        (n.anchor = some ⟨"a.rb", 1, 2⟩ ∧ m.identity = n.identity ∧ m.anchor = some ⟨"b.rb", 2, 3⟩) ∧
        ∃ before now file after, openedTwice = before ++ .commit now file :: after ∧ file.path = "b.rb" ∧
          (∀ later ∈ after, later.path? ≠ some "b.rb") ∧
          ∃ k ∈ (deskAfter (before ++ [.commit now file])).store.graph.nodes, Rebuilt (.ofSource file.text) n k m := by
  have hmoves : ∃ n ∈ (deskAfter openedTwice).store.graph.nodes,
      ∃ m ∈ (deskAfter (openedTwice ++ [.remove "a.rb"])).store.graph.nodes,
        n.anchor = some ⟨"a.rb", 1, 2⟩ ∧ m.identity = n.identity ∧ m.anchor = some ⟨"b.rb", 2, 3⟩ := by
    decide +kernel
  obtain ⟨n, hn, m, hm, ha, hsame, hb⟩ := hmoves
  exact ⟨n, hn, m, hm, ⟨ha, hsame, hb⟩, rebuilt_of_moved openedTwice (.remove "a.rb") hn ha rfl hm hsame hb (by decide)⟩

/-- A method at the top of one file and a class-level method at the top of another, of one name. -/
def namesakes : List FileEvent := [
  .commit 0 (textFile "b.rb" "def x\nend\n"),
  .commit 0 (textFile "a.rb" "def self.x\nend\n")]

/-- After the second file is removed, the method of the first is marked as class-level, which its file had not
written. -/
theorem exists_metadata_ne_written :
    ∃ n ∈ (deskAfter namesakes).store.graph.nodes,
      ∃ m ∈ (deskAfter (namesakes ++ [.remove "a.rb"])).store.graph.nodes,
        ∃ k ∈ (deskAfter (namesakes.take 1)).store.graph.nodes,
          n.anchor = some ⟨"a.rb", 1, 2⟩ ∧ m.identity = n.identity ∧ k.identity = m.identity ∧
          m.anchor = some ⟨"b.rb", 1, 2⟩ ∧ m.anchor = k.anchor ∧ m.metadata ≠ k.metadata := by
  have hmoves : ∃ n ∈ (deskAfter namesakes).store.graph.nodes,
      ∃ m ∈ (deskAfter (namesakes ++ [.remove "a.rb"])).store.graph.nodes,
        ∃ k ∈ (deskAfter (namesakes.take 1)).store.graph.nodes,
          n.anchor = some ⟨"a.rb", 1, 2⟩ ∧ m.identity = n.identity ∧ k.identity = m.identity ∧
          m.anchor = some ⟨"b.rb", 1, 2⟩ ∧ m.anchor = k.anchor ∧
          marksClassMethod m.metadata = true ∧ marksClassMethod k.metadata = false := by
    decide +kernel
  obtain ⟨n, hn, m, hm, k, hk, ha, hsame, hidentity, hb, hanchor, hmark, hunmarked⟩ := hmoves
  refine ⟨n, hn, m, hm, k, hk, ha, hsame, hidentity, hb, hanchor, ?_⟩
  intro heq
  rw [heq, hunmarked] at hmark
  exact absurd hmark (by simp)

end Indexing

end CodeAtlas
