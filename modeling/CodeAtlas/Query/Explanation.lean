import CodeAtlas.Graph.Traversal
import CodeAtlas.Store
/-!
# Queries about nodes

A node is referred to by its id, by `kind:key`, or by its key alone where only one node has it. To explain a node is to count its edges, list its
neighbours, and say which queries are worth asking next.
-/

namespace CodeAtlas

namespace Graph

/-- The nodes with a key, one of each kind at most, in the order of kinds. -/
def withKey (g : Graph) (key : String) : List Node := NodeKind.all.filterMap fun kind => g.find? kind key

/-- The node with a key alone. -/
def resolveKey (g : Graph) (key : String) : Outcome Node :=
  match g.withKey key with
  | [] => .error (.notFound (.node key))
  | [node] => .ok node
  | nodes => .error (.invalidQuery (.ambiguous key (nodes.map (·.kind.name))))

/-- A kind and a key, in a reference of that form. -/
def kindAndKey? (reference : List Char) : Option (NodeKind × String) :=
  (Text.splitFirst? ':' reference).bind fun (kind, key) =>
    (NodeKind.ofName? (String.ofList kind)).map fun kind => (kind, String.ofList key)

/-- The node that a reference names. -/
def resolve (g : Graph) (reference : String) : Outcome Node :=
  let reference := Text.trim reference.toList
  match Number.int64? reference with
  | some id =>
    match g.node? id with
    | some node => .ok node
    | none => .error (.notFound (.node (toString id)))
  | none =>
    match kindAndKey? reference with
    | some (kind, key) =>
      match g.find? kind key with
      | some node => .ok node
      | none => .error (.notFound (.keyed kind.name key))
    | none => g.resolveKey (String.ofList reference)

/-- The neighbourhood of the node that a reference names. -/
def neighborsOf (g : Graph) (reference : String) (kinds : List EdgeKind) (direction : Direction) (depth : Nat) :
    Outcome Neighborhood :=
  match g.resolve reference with
  | .error e => .error e
  | .ok node => g.neighbors node.id kinds direction depth

end Graph

/-- A query worth asking next, and why. -/
structure NextAction where
  action : String
  target : String
  reason : String
deriving Repr, DecidableEq, Inhabited

/-- The action as a record. -/
def NextAction.toJson (a : NextAction) : Json :=
  .record [("action", .str a.action), ("target", .str a.target), ("reason", .str a.reason)]

namespace NextAction

/-- How many edges of a kind there are in one direction. -/
def countOf (counts : List EdgeCount) (kind : EdgeKind) (direction : Direction) : Nat :=
  ((counts.filter fun c => c.kind = kind && c.direction = direction).map (·.count)).foldl (· + ·) 0

/-- A placeholder is worth searching for. -/
def forPlaceholder (node : Node) : List NextAction :=
  if node.isInferred then [⟨"search", node.label, "only referenced so far; its definition is not indexed"⟩] else []

/-- A definition is worth reading. -/
def forAnchor (node : Node) : List NextAction :=
  match node.anchor with
  | some a =>
    [⟨"snippet", a.path ++ ":" ++ toString a.startLine ++ "-" ++ toString a.endLine, "read the definition"⟩]
  | none => []

/-- What to ask about a class, a module or a file. -/
def forDefinition (node : Node) (counts : List EdgeCount) (neighbors : List Node) : List NextAction :=
  let tests : List NextAction := match node.anchor with
    | some a => [⟨"tests", a.path, "find covering tests"⟩]
    | none => []
  let tables : List NextAction :=
    if 0 < countOf counts .backs .outward then
      (neighbors.filter (·.kind = .table)).map fun t => ⟨"table", t.key, "backing table columns"⟩
    else []
  let associations : Nat := ((counts.filter (·.kind.isAssociation)).map (·.count)).foldl (· + ·) 0
  let related : List NextAction :=
    if 0 < associations then [⟨"neighbors", node.reference, toString associations ++ " association edges"⟩] else []
  let subclasses := countOf counts .inherits .inward
  let below : List NextAction :=
    if 0 < subclasses then [⟨"neighbors", node.reference, toString subclasses ++ " subclasses"⟩] else []
  tests ++ tables ++ related ++ below

/-- What to ask about a table. -/
def forTable (node : Node) (neighbors : List Node) : List NextAction :=
  [⟨"table", node.key, "columns and indexes"⟩, ⟨"associations", node.key, "inferred associations"⟩,
    ⟨"validations", node.key, "suggested validations"⟩] ++
    (neighbors.filter (·.kind = .classDecl)).map fun m => ⟨"explain", "class:" ++ m.key, "model backed by this table"⟩

/-- What to ask about a column or an index. -/
def forPart (node : Node) (counts : List EdgeCount) (neighbors : List Node) : List NextAction :=
  let owners : List NextAction :=
    (neighbors.filter (·.kind = .table)).map fun t => ⟨"table", t.key, "owning table"⟩
  let table := ((Text.splitOn '.' node.key.toList).head?).getD node.key.toList
  let keys : List NextAction :=
    if node.kind = .column && 0 < countOf counts .references .outward then
      [⟨"associations", String.ofList table, "column is a foreign key"⟩]
    else []
  owners ++ keys

/-- What to ask about a method. -/
def forMethod (neighbors : List Node) : List NextAction :=
  match neighbors.find? fun n => n.kind = .classDecl || n.kind = .moduleDecl with
  | some owner => [⟨"explain", owner.reference, "enclosing definition"⟩]
  | none => []

/-- What to ask about a node of each kind. -/
def forKind (node : Node) (counts : List EdgeCount) (neighbors : List Node) : List NextAction :=
  match node.kind with
  | .classDecl | .moduleDecl | .file => forDefinition node counts neighbors
  | .table => forTable node neighbors
  | .column | .index => forPart node counts neighbors
  | .method => forMethod neighbors

/-- Drops actions that were suggested before with the same target. -/
def distinct (actions : List NextAction) : List NextAction :=
  actions.foldl (fun seen a =>
    if seen.any fun b => b.action = a.action && b.target = a.target then seen else seen ++ [a]) []

/-- The queries worth asking about a node. -/
def suggest (node : Node) (counts : List EdgeCount) (neighbors : List Node) : List NextAction :=
  distinct (forPlaceholder node ++ forAnchor node ++ forKind node counts neighbors)

end NextAction

/-- A node explained. `schemaError` is present on nodes of the schema while the schema file cannot be read. -/
structure Explanation where
  node : Node
  edgeCounts : List EdgeCount
  neighbors : List Node
  nextActions : List NextAction
  schemaError : Option String
deriving Inhabited

/-- The explanation as a record. -/
def Explanation.toJson (e : Explanation) : Json :=
  .record ([
    ("node", e.node.toJson),
    ("edge_counts", .arr (e.edgeCounts.map EdgeCount.toJson)),
    ("neighbors", .arr (e.neighbors.map Node.toJson)),
    ("next_actions", .arr (e.nextActions.map NextAction.toJson))] ++
    (e.schemaError.map fun text => ("schema_error", Json.str text)).toList)

/-- Explains the node that a reference names. -/
def Store.explain (s : Store) (reference : String) : Outcome Explanation := do
  let node ← s.graph.resolve reference
  let hood ← s.graph.neighbors node.id [] .both 1
  let counts := s.graph.edgeCounts node.id
  let neighbors := hood.nodes.filter (·.id ≠ node.id)
  return {
    node := node
    edgeCounts := counts
    neighbors := neighbors
    nextActions := NextAction.suggest node counts neighbors
    schemaError := if node.kind.isSchema then s.note? Store.schemaError else none }

end CodeAtlas
