import CodeAtlas.CommandLine.Answer
import CodeAtlas.Proofs.Graph.Neighborhood
import CodeAtlas.Proofs.Projection.Location
import CodeAtlas.Proofs.Text.Parts
import Mathlib.Data.List.DropRight
/-!
# References to nodes

A reference `kind:key` is never taken for an id or for a bare key, whatever the key holds: it is a look-up of the kind and
of the key without blanks at its end (`Graph.resolve_qualified`). So the references in the grids that commands print lead to
the nodes they stand for. The names in the lines of a neighbourhood put the kind before a whole reference, and never lead
to the node (`resolve_printed`).
-/

namespace CodeAtlas

namespace Number

/-- A text with a colon is no numeral. -/
theorem int64?_of_colon {cs : List Char} (h : ':' ∈ cs) : int64? cs = none := by
  have hnone : ∀ rest : List Char, ':' ∈ rest → nat? rest = none := by
    intro rest hrest
    rw [nat?, if_pos]
    simp only [Bool.or_eq_true, Bool.not_eq_true', List.all_eq_false]
    exact Or.inr ⟨':', hrest, by decide⟩
  unfold int64?
  split
  · rw [hnone _ (by simpa using h)]
    rfl
  · rw [hnone _ (by simpa using h)]
    rfl
  · rw [hnone _ h]
    rfl

end Number

namespace NodeKind

theorem ofName?_name (k : NodeKind) : ofName? k.name = some k := by
  cases k <;> decide

theorem colon_not_mem_name (k : NodeKind) : ':' ∉ k.name.toList := by
  cases k <;> decide

theorem exists_head_name (k : NodeKind) : ∃ c, k.name.toList.head? = some c ∧ Text.isBlank c = false := by
  cases k <;> exact ⟨_, rfl, by decide⟩

end NodeKind

namespace Text

/-- A text without the blanks at its end. -/
def stripEnd (s : String) : String := String.ofList (trimEnd s.toList)

@[simp] theorem toList_stripEnd (s : String) : (stripEnd s).toList = trimEnd s.toList := String.toList_ofList

theorem trimEnd_trimEnd (cs : List Char) : trimEnd (trimEnd cs) = trimEnd cs := by
  simp only [trimEnd, dropEndWhile, List.reverse_reverse, List.dropWhile_idempotent]

theorem toList_qualified (k : NodeKind) (key : String) :
    (k.name ++ ":" ++ key).toList = k.name.toList ++ ':' :: key.toList := by
  simp

theorem trimEnd_qualified (k : NodeKind) (key : String) :
    trimEnd (k.name ++ ":" ++ key).toList = k.name.toList ++ ':' :: trimEnd key.toList := by
  rw [toList_qualified, trimEnd_append (by decide)]

theorem trim_qualified (k : NodeKind) (key : String) :
    trim (k.name ++ ":" ++ key).toList = k.name.toList ++ ':' :: trimEnd key.toList := by
  have hfirst : ∀ c ∈ (k.name ++ ":" ++ key).toList.head?, isBlank c = false := by
    obtain ⟨first, hname, hblank⟩ := k.exists_head_name
    rw [toList_qualified, List.head?_append, hname]
    simpa using hblank
  have hstart : trimStart (k.name ++ ":" ++ key).toList = (k.name ++ ":" ++ key).toList :=
    trimStart_append (List.forall_mem_nil _) hfirst
  rw [trim, hstart, trimEnd_qualified]

end Text

namespace Graph

/-- The node of a kind with a key, or that there is none. -/
def lookUp (g : Graph) (kind : NodeKind) (key : String) : Outcome Node :=
  match g.find? kind key with
  | some node => .ok node
  | none => .error (.notFound (.keyed kind.name key))

theorem kindAndKey?_qualified (k : NodeKind) (key : List Char) :
    kindAndKey? (k.name.toList ++ ':' :: key) = some (k, String.ofList key) := by
  rw [kindAndKey?, Text.splitFirst?_append k.colon_not_mem_name]
  simp [NodeKind.ofName?_name]

/-- A reference of a kind and a key is looked up as such, without the blanks at the end of the key. -/
theorem resolve_qualified (g : Graph) (k : NodeKind) (key : String) :
    g.resolve (k.name ++ ":" ++ key) = g.lookUp k (Text.stripEnd key) := by
  have hcolon : ':' ∈ k.name.toList ++ ':' :: Text.trimEnd key.toList := by simp
  simp only [resolve, Text.trim_qualified, Number.int64?_of_colon hcolon, kindAndKey?_qualified]
  rfl

section

variable {g : Graph} {k : NodeKind} {key : String} {n : Node}

theorem lookUp_eq_ok_iff (hg : g.WellFormed) : g.lookUp k key = .ok n ↔ n ∈ g.nodes ∧ n.identity = (k, key) := by
  rw [← find?_eq_some_iff hg, lookUp]
  split
  · next m h => rw [h, Except.ok.injEq, Option.some.injEq]
  · next h => simp [h]

/-- A reference to a node leads to it, if no blank ends its key. -/
theorem resolve_reference (hg : g.WellFormed) (hn : n ∈ g.nodes) (hkey : Text.stripEnd n.key = n.key) :
    g.resolve n.reference = .ok n := by
  rw [Node.reference, resolve_qualified, hkey, lookUp_eq_ok_iff hg]
  exact ⟨hn, rfl⟩

/-- With its kind written twice a reference does not lead to the node: the key would have to be longer than itself. -/
theorem resolve_doubled_ne (hg : g.WellFormed) (n : Node) : g.resolve (n.kind.name ++ ":" ++ n.reference) ≠ .ok n := by
  intro h
  rw [resolve_qualified, lookUp_eq_ok_iff hg] at h
  have hkey : n.key.toList = Text.trimEnd n.reference.toList := by
    rw [← Text.toList_stripEnd]
    exact congrArg (fun i : Identity => i.2.toList) h.2
  have hstrip : Text.trimEnd n.key.toList = n.key.toList := by rw [hkey, Text.trimEnd_trimEnd]
  rw [Node.reference, Text.trimEnd_qualified, hstrip] at hkey
  have hlength := congrArg List.length hkey
  simp only [List.length_append, List.length_cons] at hlength
  omega

theorem mem_of_resolve {reference : String} (h : g.resolve reference = .ok n) : n ∈ g.nodes := by
  have hfind : ∀ (kind : NodeKind) (key : String) (m : Node), g.find? kind key = some m → m ∈ g.nodes :=
    fun _ _ _ hm => List.mem_of_find?_eq_some hm
  unfold resolve at h
  simp only at h
  split at h
  · split at h
    · next hnode =>
        cases h
        exact List.mem_of_find?_eq_some hnode
    · cases h
  · split at h
    · split at h
      · next hnode =>
          cases h
          exact hfind _ _ _ hnode
      · cases h
    · unfold resolveKey at h
      split at h
      · cases h
      · next hkeyed =>
          cases h
          have hmem : n ∈ g.withKey (String.ofList (Text.trim reference.toList)) := hkeyed ▸ List.mem_singleton_self n
          obtain ⟨kind, _, hnode⟩ := List.mem_filterMap.1 hmem
          exact hfind _ _ _ hnode
      · cases h

theorem node?_of_neighborsOf {reference : String} {kinds : List EdgeKind} {direction : Direction} {depth : Nat}
    {hood : Neighborhood} (hg : g.WellFormed) (h : g.neighborsOf reference kinds direction depth = .ok hood) {id : Int}
    (hid : id = hood.start ∨ ∃ e ∈ hood.edges, id = e.source ∨ id = e.target) :
    ∃ n ∈ g.nodes, n.id = id ∧ hood.node? id = some n := by
  unfold neighborsOf at h
  split at h
  · cases h
  · exact node?_of_neighbors hg h hid

end

end Graph

/-- How an explanation comes about: the node is the one referred to, and its neighbours are the other nodes of its
neighbourhood. -/
theorem Store.explain_eq_ok {s : Store} {reference : String} {e : Explanation} (h : s.explain reference = .ok e) :
    s.graph.resolve reference = .ok e.node ∧
      (∃ hood, s.graph.neighbors e.node.id [] .both 1 = .ok hood ∧ e.neighbors = hood.nodes.filter (·.id ≠ e.node.id)) ∧
      e.edgeCounts = s.graph.edgeCounts e.node.id ∧
      e.nextActions = NextAction.suggest e.node e.edgeCounts e.neighbors := by
  unfold Store.explain at h
  cases hnode : s.graph.resolve reference with
  | error err =>
      rw [hnode] at h
      cases h
  | ok node =>
      rw [hnode] at h
      change (s.graph.neighbors node.id [] .both 1 >>= _) = _ at h
      cases hhood : s.graph.neighbors node.id [] .both 1 with
      | error err =>
          rw [hhood] at h
          cases h
      | ok hood =>
          rw [hhood] at h
          cases h
          exact ⟨rfl, ⟨hood, hhood, rfl⟩, rfl, rfl⟩

theorem Store.mem_of_explain {s : Store} {reference : String} {e : Explanation} (h : s.explain reference = .ok e) {n : Node}
    (hn : n ∈ e.neighbors) : n ∈ s.graph.nodes := by
  obtain ⟨-, ⟨hood, hhood, heq⟩, -⟩ := Store.explain_eq_ok h
  rw [heq] at hn
  exact Graph.mem_nodes_of_neighbors hhood (List.mem_filter.1 hn).1

namespace CommandLine

namespace Output

@[simp] theorem out_append (a b : Output) : (a ++ b).out = a.out ++ b.out := rfl

theorem out_foldl (parts : List Output) (o : Output) : (parts.foldl append o).out = o.out ++ parts.flatMap (·.out) := by
  induction parts generalizing o with
  | nil => simp
  | cons part rest ih => rw [List.foldl_cons, ih, List.flatMap_cons, append, List.append_assoc]

@[simp] theorem out_concat (parts : List Output) : (concat parts).out = parts.flatMap (·.out) := out_foldl parts {}

end Output

namespace Answer

/-- The line of an edge, with its ends called by name. -/
def edgeLine (hood : Neighborhood) (e : Edge) : String :=
  "  " ++ nameIn hood e.source ++ " -" ++ e.kind.name ++ "-> " ++ nameIn hood e.target

/-- The lines of a neighbourhood: its title, the grid of its nodes, and its edges. -/
theorem out_neighborhood (hood : Neighborhood) :
    (neighborhood hood).out =
      (Icon.text .node ++ " " ++ (nameIn hood hood.start ++ " (depth " ++ toString hood.depth ++ ")")) ::
        ((nodeGrid hood.nodes).out ++
          if hood.edges.isEmpty then [] else ["", "━Edges━"] ++ hood.edges.map (edgeLine hood)) := by
  have hlines : (hood.edges.map fun e => Output.line (edgeLine hood e)).flatMap (·.out) = hood.edges.map (edgeLine hood) := by
    rw [List.flatMap_map, List.map_eq_flatMap]
    rfl
  unfold neighborhood
  cases hood.edges.isEmpty with
  | true => simp [Output.header, Output.line, Output.onlyIf]
  | false => simp [Output.header, Output.line, Output.onlyIf, Output.heading, ← hlines, edgeLine]

theorem head_explanation (e : Explanation) :
    (explanation e).out.head? = some (Icon.text .node ++ " " ++ (e.node.kind.name ++ " " ++ e.node.reference)) := rfl

end Answer

/-- The lists of nodes that commands show in a grid. -/
inductive Listed (s : Store) : List Node → Prop where
  | found {kind : Option NodeKind} {filter : Option String} {limit : Nat} {nodes : List Node}
      (h : s.graph.findNodes kind filter limit = .ok nodes) : Listed s nodes
  | around {reference : String} {kinds : List EdgeKind} {direction : Direction} {depth : Nat} {hood : Neighborhood}
      (h : s.graph.neighborsOf reference kinds direction depth = .ok hood) : Listed s hood.nodes
  | explained {reference : String} {e : Explanation} (h : s.explain reference = .ok e) : Listed s e.neighbors

/-- The nodes that a neighbourhood calls by name: its start and the ends of its edges. -/
def Called (hood : Neighborhood) (id : Int) : Prop := id = hood.start ∨ ∃ e ∈ hood.edges, id = e.source ∨ id = e.target

section

variable {s : Store} {nodes : List Node} {n : Node} {hood : Neighborhood}

theorem Listed.mem (h : Listed s nodes) (hn : n ∈ nodes) : n ∈ s.graph.nodes := by
  cases h with
  | found h =>
      unfold Graph.findNodes at h
      split at h
      · cases h
      · cases h
        exact (List.mem_filter.1 (List.mem_mergeSort.1 (List.mem_of_mem_take hn))).1
  | around h =>
      unfold Graph.neighborsOf at h
      split at h
      · cases h
      · exact Graph.mem_nodes_of_neighbors h hn
  | explained h => exact Store.mem_of_explain h hn

theorem nameIn_of_node? {id : Int} (h : hood.node? id = some n) :
    Answer.nameIn hood id = n.kind.name ++ ":" ++ n.reference := by
  rw [Answer.nameIn, h]

end

/-- Where printed texts lead. In every grid the key of a node leads to the node, if no blank ends it, and so does the reference
in the title of an explanation. The names in the lines of a neighbourhood are those of nodes, with the kind before the whole
reference: they are looked up as keys that begin with the kind, and none leads to its node. -/
theorem resolve_printed {s : Store} (hg : s.graph.WellFormed) :
    (∀ nodes, Listed s nodes → ∃ rows,
      Answer.nodeGrid nodes = Answer.grid ["Id", "Kind", "Key", "Source", "Location"] rows ∧
        List.Forall₂ (fun n row => ∃ key, row[2]? = some key ∧ (Text.stripEnd n.key = n.key → s.graph.resolve key = .ok n))
          nodes rows) ∧
    (∀ reference e, s.explain reference = .ok e →
      (Answer.explanation e).out.head? = some (Icon.text .node ++ " " ++ (e.node.kind.name ++ " " ++ e.node.reference)) ∧
        (Text.stripEnd e.node.key = e.node.key → s.graph.resolve e.node.reference = .ok e.node)) ∧
    ∀ reference kinds direction depth hood, s.graph.neighborsOf reference kinds direction depth = .ok hood →
      (Answer.neighborhood hood).out =
        (Icon.text .node ++ " " ++ (Answer.nameIn hood hood.start ++ " (depth " ++ toString hood.depth ++ ")")) ::
          ((Answer.nodeGrid hood.nodes).out ++
            if hood.edges.isEmpty then [] else ["", "━Edges━"] ++ hood.edges.map (Answer.edgeLine hood)) ∧
      ∀ id, Called hood id → ∃ n ∈ s.graph.nodes, n.id = id ∧
        Answer.nameIn hood id = n.kind.name ++ ":" ++ n.reference ∧
        s.graph.resolve (Answer.nameIn hood id) = s.graph.lookUp n.kind (Text.stripEnd n.reference) ∧
        s.graph.resolve (Answer.nameIn hood id) ≠ .ok n := by
  refine ⟨?_, ?_, ?_⟩
  · intro nodes hlisted
    refine ⟨_, rfl, ?_⟩
    rw [List.forall₂_map_right_iff, List.forall₂_same]
    intro n hn
    exact ⟨n.reference, rfl, Graph.resolve_reference hg (hlisted.mem hn)⟩
  · intro reference e h
    exact ⟨Answer.head_explanation e, Graph.resolve_reference hg (Graph.mem_of_resolve (Store.explain_eq_ok h).1)⟩
  · intro reference kinds direction depth hood h
    refine ⟨Answer.out_neighborhood hood, ?_⟩
    intro id hid
    obtain ⟨n, hn, hnid, hnode⟩ := Graph.node?_of_neighborsOf hg h hid
    have hname := nameIn_of_node? hnode
    refine ⟨n, hn, hnid, hname, ?_, ?_⟩
    · rw [hname, Graph.resolve_qualified]
    · rw [hname]
      exact Graph.resolve_doubled_ne hg n

/-- A class inside a module, and the class it inherits from. -/
def inheriting : Store where
  graph := {
    nodes := [NewNode.stored { kind := .classDecl, key := "A::B", source := .fromSource } 1,
      NewNode.stored { kind := .classDecl, key := "Base", source := .fromSource } 2]
    edges := [NewEdge.stored { kind := .inherits, source := 1, target := 2, origin := some "b.rb" } 1 []]
    nextNode := 3
    nextEdge := 2 }

theorem wellFormed_inheriting : inheriting.graph.WellFormed := by
  constructor <;> decide

/-- The neighbourhood of the first class. -/
def aroundInheriting : Neighborhood :=
  { start := 1, depth := 1, nodes := inheriting.graph.nodes, edges := inheriting.graph.edges }

theorem neighborsOf_inheriting : inheriting.graph.neighborsOf "class:A::B" [] .both 1 = .ok aroundInheriting := rfl

theorem resolve_printed_inheriting :
    inheriting.graph.WellFormed ∧
      (∃ rows, Answer.nodeGrid aroundInheriting.nodes = Answer.grid ["Id", "Kind", "Key", "Source", "Location"] rows ∧
        List.Forall₂ (fun n row => ∃ key, row[2]? = some key ∧
          (Text.stripEnd n.key = n.key → inheriting.graph.resolve key = .ok n)) aroundInheriting.nodes rows) ∧
      ∃ n ∈ inheriting.graph.nodes, n.id = 2 ∧
        Answer.nameIn aroundInheriting 2 = n.kind.name ++ ":" ++ n.reference ∧
        inheriting.graph.resolve (Answer.nameIn aroundInheriting 2) =
          inheriting.graph.lookUp n.kind (Text.stripEnd n.reference) ∧
        inheriting.graph.resolve (Answer.nameIn aroundInheriting 2) ≠ .ok n := by
  obtain ⟨hgrid, -, hnames⟩ := resolve_printed wellFormed_inheriting
  have hcalled : Called aroundInheriting 2 := Or.inr ⟨_, List.mem_singleton_self _, Or.inr rfl⟩
  exact ⟨wellFormed_inheriting, hgrid _ (.around neighborsOf_inheriting),
    (hnames _ _ _ _ _ neighborsOf_inheriting).2 2 hcalled⟩

/-- The names in the title and in the line of the edge lead to no node, though no blank ends a key. -/
theorem exists_name_not_resolved :
    inheriting.graph.WellFormed ∧ (∀ n ∈ inheriting.graph.nodes, Text.stripEnd n.key = n.key) ∧
      inheriting.graph.neighborsOf "class:A::B" [] .both 1 = .ok aroundInheriting ∧
      "🔵 class:class:A::B (depth 1)" ∈ (Answer.neighborhood aroundInheriting).out ∧
      "  class:class:A::B -inherits-> class:class:Base" ∈ (Answer.neighborhood aroundInheriting).out ∧
      inheriting.graph.resolve "class:class:A::B" = .error (.notFound (.keyed "class" "class:A::B")) ∧
      inheriting.graph.resolve "class:class:Base" = .error (.notFound (.keyed "class" "class:Base")) := by
  refine ⟨wellFormed_inheriting, by decide, neighborsOf_inheriting, ?_, ?_, rfl, rfl⟩
  · rw [Answer.out_neighborhood]
    exact List.mem_cons_self
  · rw [Answer.out_neighborhood]
    exact List.mem_cons_of_mem _ (List.mem_append_right _ (by decide))

end CommandLine

end CodeAtlas
