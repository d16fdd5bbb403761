import CodeAtlas.Proofs.Indexing.Staleness
import CodeAtlas.Proofs.Indexing.Upkeep
import CodeAtlas.Proofs.Query.Reference
import CodeAtlas.Query.Tables
/-!
# Advice that can be followed

`NextAction.Advice` says once what a node can be explained with: reading, tables among the node and its neighbours, the table
before the first dot of a column's key, and references to nodes. After any runs the tables of the graph are the stored ones,
so an action can be taken unless the name of a column's table was cut at a dot, or a reference ends in a blank, and what is left
of it names nothing (`feasible_iff_not_astray`).
-/

namespace CodeAtlas

/-- What an action asks for can be had: a table, what its model would declare, or a node of the kind that the target
begins with. -/
structure NextAction.Feasible (s : Store) (a : NextAction) : Prop where
  table : a.action = "table" → ∃ d, s.describeTable a.target = .ok d
  associations : a.action = "associations" → ∃ found, s.suggestAssociations a.target = .ok found
  validations : a.action = "validations" → ∃ found, s.suggestValidations a.target = .ok found
  node : a.action = "explain" ∨ a.action = "neighbors" →
    ∃ n ∈ s.graph.nodes, s.graph.resolve a.target = .ok n ∧ ∃ key, a.target = n.kind.name ++ ":" ++ key

namespace NextAction

/-- The part of a text before its first dot. -/
def beforeDot (text : String) : String := String.ofList (text.toList.takeWhile (· ≠ '.'))

/-- Everything that can be advised about a node with some neighbours. -/
inductive Advice (node : Node) (neighbors : List Node) : NextAction → Prop where
  | reading {action target reason : String} (here : action ∈ ["search", "snippet", "tests"]) :
      Advice node neighbors ⟨action, target, reason⟩
  | table {action reason : String} (here : action ∈ ["table", "associations", "validations"]) {t : Node}
      (mem : t = node ∨ t ∈ neighbors) (kind : t.kind = .table) : Advice node neighbors ⟨action, t.key, reason⟩
  | foreignKey {reason : String} (kind : node.kind = .column) :
      Advice node neighbors ⟨"associations", beforeDot node.key, reason⟩
  | reference {action reason : String} (here : action ∈ ["explain", "neighbors"]) {n : Node}
      (mem : n = node ∨ n ∈ neighbors) : Advice node neighbors ⟨action, n.reference, reason⟩

theorem mem_of_mem_distinct {actions : List NextAction} {a : NextAction} (h : a ∈ distinct actions) : a ∈ actions :=
  (mem_or_mem_of_mem_foldl h).resolve_left List.not_mem_nil

theorem head_splitOn (sep : Char) (cs : List Char) : (Text.splitOn sep cs).head? = some (cs.takeWhile (· ≠ sep)) := by
  induction cs with
  | nil => rfl
  | cons c cs ih =>
      rw [Text.splitOn]
      by_cases h : c = sep
      · rw [if_pos h, List.takeWhile_cons_of_neg (by simp [h])]
        rfl
      · rw [if_neg h, List.takeWhile_cons_of_pos (by simp [h])]
        cases hrest : Text.splitOn sep cs with
        | nil => exact absurd hrest (Text.splitOn_ne_nil sep cs)
        | cons part parts =>
            rw [hrest, List.head?_cons, Option.some.injEq] at ih
            rw [ih]
            rfl

section

variable {node : Node} {counts : List EdgeCount} {neighbors : List Node} {a : NextAction}

theorem advice_forDefinition (h : a ∈ forDefinition node counts neighbors) : Advice node neighbors a := by
  simp only [forDefinition, List.mem_append, List.mem_ite_nil_right, List.mem_singleton] at h
  rcases h with ((h | ⟨-, h⟩) | ⟨-, rfl⟩) | ⟨-, rfl⟩
  · split at h
    · rw [List.mem_singleton.1 h]
      exact .reading (by decide)
    · exact absurd h List.not_mem_nil
  · obtain ⟨t, ht, rfl⟩ := List.mem_map.1 h
    obtain ⟨hmem, hkind⟩ := List.mem_filter.1 ht
    exact .table (by decide) (Or.inr hmem) (of_decide_eq_true hkind)
  · exact .reference (by decide) (Or.inl rfl)
  · exact .reference (by decide) (Or.inl rfl)

theorem advice_forTable (hkind : node.kind = .table) (h : a ∈ forTable node neighbors) : Advice node neighbors a := by
  rw [forTable, List.mem_append] at h
  rcases h with h | h
  · simp only [List.mem_cons, List.not_mem_nil, or_false] at h
    rcases h with rfl | rfl | rfl <;> exact .table (by decide) (Or.inl rfl) hkind
  · obtain ⟨m, hm, rfl⟩ := List.mem_map.1 h
    obtain ⟨hmem, hclass⟩ := List.mem_filter.1 hm
    have hreference : "class:" ++ m.key = m.reference := by
      rw [Node.reference, of_decide_eq_true hclass]
      rfl
    rw [hreference]
    exact .reference (by decide) (Or.inr hmem)

theorem advice_forPart (h : a ∈ forPart node counts neighbors) : Advice node neighbors a := by
  simp only [forPart, List.mem_append, List.mem_ite_nil_right, List.mem_singleton, Bool.and_eq_true] at h
  rcases h with h | ⟨⟨hcolumn, -⟩, rfl⟩
  · obtain ⟨t, ht, rfl⟩ := List.mem_map.1 h
    obtain ⟨hmem, hkind⟩ := List.mem_filter.1 ht
    exact .table (by decide) (Or.inr hmem) (of_decide_eq_true hkind)
  · rw [head_splitOn]
    exact .foreignKey (of_decide_eq_true hcolumn)

theorem advice_forMethod (h : a ∈ forMethod neighbors) : Advice node neighbors a := by
  unfold forMethod at h
  split at h
  · next owner howner =>
      rw [List.mem_singleton.1 h]
      exact .reference (by decide) (Or.inr (List.mem_of_find?_eq_some howner))
  · exact absurd h List.not_mem_nil

theorem advice_forKind (h : a ∈ forKind node counts neighbors) : Advice node neighbors a := by
  unfold forKind at h
  split at h
  · exact advice_forDefinition h
  · exact advice_forDefinition h
  · exact advice_forDefinition h
  · next hkind => exact advice_forTable hkind h
  · exact advice_forPart h
  · exact advice_forPart h
  · exact advice_forMethod h

theorem advice_suggest (h : a ∈ suggest node counts neighbors) : Advice node neighbors a := by
  have hmem := mem_of_mem_distinct h
  rw [List.mem_append, List.mem_append] at hmem
  rcases hmem with (hmem | hmem) | hmem
  · unfold forPlaceholder at hmem
    split at hmem
    · rw [List.mem_singleton.1 hmem]
      exact .reading (by decide)
    · exact absurd hmem List.not_mem_nil
  · unfold forAnchor at hmem
    split at hmem
    · rw [List.mem_singleton.1 hmem]
      exact .reading (by decide)
    · exact absurd hmem List.not_mem_nil
  · exact advice_forKind hmem

end

/-! ## What can be had -/

section

variable {s : Store} {action target reason : String}

theorem requireTable_eq_ok_iff : (∃ t, s.requireTable target = .ok t) ↔ target ∈ s.schema.tableNames := by
  rw [← Schema.table?_isSome_iff, Store.requireTable]
  cases s.schema.table? target <;> simp

theorem exists_map_eq_ok {α β : Type} {x : Outcome α} (f : α → β) : (∃ b, x.map f = .ok b) ↔ ∃ a, x = .ok a := by
  cases x <;> simp [Except.map]

theorem eq_ok_of_toOption {α : Type} {x : Outcome α} {a : α} (h : x.toOption = some a) : x = .ok a := by
  cases x with
  | error e => cases h
  | ok b => rw [Option.some.inj h]

theorem feasible_reading (h : action ∈ ["search", "snippet", "tests"]) : Feasible s ⟨action, target, reason⟩ := by
  simp only [List.mem_cons, List.not_mem_nil, or_false] at h
  rcases h with rfl | rfl | rfl <;> constructor <;> simp

theorem feasible_table_iff (h : action ∈ ["table", "associations", "validations"]) :
    Feasible s ⟨action, target, reason⟩ ↔ target ∈ s.schema.tableNames := by
  rw [← requireTable_eq_ok_iff]
  simp only [List.mem_cons, List.not_mem_nil, or_false] at h
  constructor
  · intro hfeasible
    rcases h with rfl | rfl | rfl
    · exact (exists_map_eq_ok _).1 (hfeasible.table rfl)
    · exact (exists_map_eq_ok _).1 (hfeasible.associations rfl)
    · exact (exists_map_eq_ok _).1 (hfeasible.validations rfl)
  · intro hok
    refine ⟨fun _ => (exists_map_eq_ok _).2 hok, fun _ => (exists_map_eq_ok _).2 hok, fun _ => (exists_map_eq_ok _).2 hok, ?_⟩
    rcases h with rfl | rfl | rfl <;> simp

theorem feasible_reference_iff (hg : s.graph.WellFormed) (h : action ∈ ["explain", "neighbors"]) (n : Node) :
    Feasible s ⟨action, n.reference, reason⟩ ↔ s.graph.Has (n.kind, Text.stripEnd n.key) := by
  simp only [List.mem_cons, List.not_mem_nil, or_false] at h
  constructor
  · intro hfeasible
    obtain ⟨m, hm, hresolve, -⟩ := hfeasible.node h
    rw [Node.reference, Graph.resolve_qualified, Graph.lookUp_eq_ok_iff hg] at hresolve
    exact ⟨m.id, m, hm, rfl, hresolve.2⟩
  · rintro ⟨_, m, hm, -, hidentity⟩
    have hresolve : s.graph.resolve n.reference = .ok m := by
      rw [Node.reference, Graph.resolve_qualified, Graph.lookUp_eq_ok_iff hg]
      exact ⟨hm, hidentity⟩
    have hkind : n.reference = m.kind.name ++ ":" ++ n.key := by
      rw [Node.reference, show m.kind = n.kind from congrArg Prod.fst hidentity]
    refine ⟨?_, ?_, ?_, fun _ => ⟨m, hm, hresolve, n.key, hkind⟩⟩ <;> rcases h with rfl | rfl <;> simp

end

/-! ## What leads astray -/

theorem beforeDot_column (t c : String) : beforeDot (Projection.columnKey t c) = beforeDot t := by
  have hchars : (Projection.columnKey t c).toList = t.toList ++ '.' :: c.toList := by
    simp [Projection.columnKey]
  rw [beforeDot, hchars, List.takeWhile_append]
  split
  · next h =>
      rw [List.takeWhile_cons_of_neg (by simp), List.append_nil, beforeDot,
        (List.takeWhile_sublist _).eq_of_length h]
  · rfl

theorem beforeDot_eq_self {text : String} (h : '.' ∉ text.toList) : beforeDot text = text := by
  rw [beforeDot, List.takeWhile_eq_self_iff.2, String.ofList_toList]
  intro c hc
  exact decide_eq_true fun heq => h (heq ▸ hc)

/-- The target of an action is not what was meant, and nothing is there instead: the name of a column's table was cut at a
dot, or the key of a node ends in a blank. -/
inductive Astray (s : Store) (node : Node) : NextAction → Prop where
  | cut {reason : String} {t : Schema.Table} {c : Schema.Column} (mem : t ∈ s.schema.tables) (here : c ∈ t.columns)
      (column : node.identity = (.column, Projection.columnKey t.name c.name)) (dot : '.' ∈ t.name.toList)
      (unknown : beforeDot t.name ∉ s.schema.tableNames) : Astray s node ⟨"associations", beforeDot t.name, reason⟩
  | trimmed {action reason : String} (here : action ∈ ["explain", "neighbors"]) {n : Node} (mem : n ∈ s.graph.nodes)
      (blank : Text.stripEnd n.key ≠ n.key) (unknown : ¬ s.graph.Has (n.kind, Text.stripEnd n.key)) :
      Astray s node ⟨action, n.reference, reason⟩

section

variable {s : Store} {node : Node} {neighbors : List Node} {a : NextAction}

theorem Astray.not_feasible (hg : s.graph.WellFormed) (h : Astray s node a) : ¬ a.Feasible s := by
  cases h with
  | cut _ _ _ _ unknown => exact fun hfeasible => unknown ((feasible_table_iff (by decide)).1 hfeasible)
  | trimmed here _ _ unknown => exact fun hfeasible => unknown ((feasible_reference_iff hg here _).1 hfeasible)

theorem Astray.action_ne_table (h : Astray s node a) : a.action ≠ "table" := by
  cases h with
  | cut => simp
  | trimmed here =>
      rintro rfl
      exact absurd here (by decide)

theorem tableName_of_mem (hm : Projection.Mirrors s.schema s.graph) {t : Node} (ht : t ∈ s.graph.nodes)
    (hkind : t.kind = .table) : t.key ∈ s.schema.tableNames := by
  have hhas : s.graph.Has (.table, t.key) := ⟨t.id, t, ht, rfl, by rw [Node.identity, hkind]⟩
  have hdescribed := (hm.keys (.table, t.key) rfl).1 hhas
  generalize t.key = key at hdescribed
  cases hdescribed with
  | table u mem => exact Projection.mem_tableNames.2 ⟨u, mem, rfl⟩

theorem Advice.feasible_or_astray (hg : s.graph.WellFormed) (hm : Projection.Mirrors s.schema s.graph)
    (hnode : node ∈ s.graph.nodes) (hneighbors : ∀ n ∈ neighbors, n ∈ s.graph.nodes) (h : Advice node neighbors a) :
    a.Feasible s ∨ Astray s node a := by
  have hstored : ∀ n, n = node ∨ n ∈ neighbors → n ∈ s.graph.nodes := by
    rintro n (rfl | hn)
    · exact hnode
    · exact hneighbors n hn
  cases h with
  | reading here => exact Or.inl (feasible_reading here)
  | table here mem kind => exact Or.inl ((feasible_table_iff here).2 (tableName_of_mem hm (hstored _ mem) kind))
  | foreignKey kind =>
      have hidentity : node.identity = (.column, node.key) := by rw [Node.identity, kind]
      have hdescribed := (hm.keys (.column, node.key) rfl).1 ⟨node.id, node, hnode, rfl, hidentity⟩
      generalize hkey : node.key = key at hdescribed
      cases hdescribed with
      | column t c mem here =>
          rw [beforeDot_column]
          by_cases hknown : beforeDot t.name ∈ s.schema.tableNames
          · exact Or.inl ((feasible_table_iff (by decide)).2 hknown)
          · refine Or.inr (.cut mem here (by rw [hidentity, hkey]) ?_ hknown)
            by_contra hdot
            rw [beforeDot_eq_self hdot] at hknown
            exact hknown (Projection.mem_tableNames.2 ⟨t, mem, rfl⟩)
  | reference here mem =>
      next n =>
      by_cases hhas : s.graph.Has (n.kind, Text.stripEnd n.key)
      · exact Or.inl ((feasible_reference_iff hg here n).2 hhas)
      · refine Or.inr (.trimmed here (hstored n mem) ?_ hhas)
        intro hsame
        rw [hsame] at hhas
        exact hhas ⟨n.id, Graph.names_of_mem (hstored n mem)⟩

end

end NextAction

namespace Indexing

open NextAction

/-- After any runs, what is advised about a node can be done unless the advice leads astray. -/
theorem feasible_iff_not_astray (requests : List Request) {reference : String} {e : Explanation}
    (h : (served requests).explain reference = .ok e) {a : NextAction} (ha : a ∈ e.nextActions) :
    a.Feasible (served requests) ↔ ¬ Astray (served requests) e.node a := by
  have hg : (served requests).graph.WellFormed := (standing_served requests).session.graph
  obtain ⟨hresolve, -, -, hactions⟩ := Store.explain_eq_ok h
  rw [hactions] at ha
  have hchoice := (advice_suggest ha).feasible_or_astray hg (kept_mirrors.served requests) (Graph.mem_of_resolve hresolve)
    fun n hn => Store.mem_of_explain h hn
  constructor
  · exact fun hfeasible hastray => hastray.not_feasible hg hfeasible
  · exact fun hnot => hchoice.resolve_right hnot

/-- A table whose name has a dot, with a column that refers to another table. -/
def dottedRuns : List Request :=
  [.tree (holdingSchema
    "create_table \"users\" do |t|\nend\ncreate_table \"app.posts\" do |t|\n  t.integer \"user_id\"\nend\n") schemaOnly 0 .full]

/-- The kinds of edges in the order in which they are counted. -/
theorem mergeSort_edgeKinds : (EdgeKind.all.mergeSort fun a b => a.name ≤ b.name) =
    [.backs, .belongsTo, .defines, .extendsModule, .hasAndBelongsToMany, .hasColumn, .hasIndex, .hasMany, .hasOne, .includes,
      .inherits, .references, .requires] := by
  simp [EdgeKind.all, EdgeKind.name, List.mergeSort]

set_option maxRecDepth 100000 in
theorem explain_dotted :
    ((served dottedRuns).explain "column:app.posts.user_id").toOption.map (fun e => (e.node.identity, e.nextActions)) =
      some ((.column, "app.posts.user_id"),
        [⟨"table", "app.posts", "owning table"⟩, ⟨"table", "users", "owning table"⟩,
          ⟨"associations", "app", "column is a foreign key"⟩]) ∧
    (served dottedRuns).schema.tableNames = ["users", "app.posts"] ∧
    ∃ t ∈ (served dottedRuns).schema.tables, t.name = "app.posts" ∧ ∃ c ∈ t.columns, c.name = "user_id" := by
  -- a merge sort does not compute in the kernel, so the sorted kinds are put in first
  simp only [Store.explain, Graph.edgeCounts, Graph.countKinds, mergeSort_edgeKinds]
  decide +kernel

/-- The column is explained. Its table is advised by its name, but for its associations by what stands before the dot. -/
theorem exists_explain_dotted :
    ∃ e, (served dottedRuns).explain "column:app.posts.user_id" = .ok e ∧
      ⟨"table", "app.posts", "owning table"⟩ ∈ e.nextActions ∧
      ⟨"associations", "app", "column is a foreign key"⟩ ∈ e.nextActions ∧
      Astray (served dottedRuns) e.node ⟨"associations", "app", "column is a foreign key"⟩ := by
  obtain ⟨hexplain, hnames, t, ht, hname, c, hc, hcolumn⟩ := explain_dotted
  obtain ⟨e, he, hpair⟩ := Option.map_eq_some_iff.1 hexplain
  obtain ⟨hnode, hactions⟩ := Prod.mk.inj hpair
  have hcut : beforeDot t.name = "app" := by
    rw [hname]
    decide
  refine ⟨e, eq_ok_of_toOption he, by rw [hactions]; decide, by rw [hactions]; decide, ?_⟩
  rw [← hcut]
  refine .cut ht hc ?_ (by rw [hname]; decide) (by rw [hcut, hnames]; decide)
  rw [hnode, hname, hcolumn]
  rfl

theorem feasible_iff_not_astray_dotted :
    ∃ e, (served dottedRuns).explain "column:app.posts.user_id" = .ok e ∧
      (∃ a ∈ e.nextActions, a.action = "table" ∧ a.Feasible (served dottedRuns)) ∧
      ∃ a ∈ e.nextActions, a.action = "associations" ∧ ¬ a.Feasible (served dottedRuns) := by
  obtain ⟨e, he, htable, hcut, hastray⟩ := exists_explain_dotted
  refine ⟨e, he, ⟨_, htable, rfl, (feasible_iff_not_astray dottedRuns he htable).2 ?_⟩, ⟨_, hcut, rfl, ?_⟩⟩
  · exact fun hastray => hastray.action_ne_table rfl
  · exact fun hfeasible => (feasible_iff_not_astray dottedRuns he hcut).1 hfeasible hastray

/-- Advice about a node need not be feasible. -/
theorem exists_action_not_feasible :
    ¬ ∀ (requests : List Request) (reference : String) (e : Explanation), (served requests).explain reference = .ok e →
      ∀ a ∈ e.nextActions, a.Feasible (served requests) := by
  intro hall
  obtain ⟨e, he, -, hcut, hastray⟩ := exists_explain_dotted
  exact hastray.not_feasible (standing_served dottedRuns).session.graph (hall dottedRuns _ e he _ hcut)

end Indexing

end CodeAtlas
