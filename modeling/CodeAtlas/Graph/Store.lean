import CodeAtlas.Graph.Node
import CodeAtlas.Graph.Edge
import CodeAtlas.Text.Basic
import CodeAtlas.Text.Case
/-!
# The graph

Nodes and edges in the order of their ids, and the ids to be given next. Writing a node or an edge that is there already keeps its id and
replaces the rest; every write uses up an id, and ids are never given twice. Deleting a node deletes its edges. An edge whose ends do not both
exist is refused. An edge is held by the origins that wrote it, and goes when the last of them lets go.
-/

namespace CodeAtlas

/-- The stored graph. -/
structure Graph where
  nodes : List Node := []
  edges : List Edge := []
  nextNode : Int := 1
  nextEdge : Int := 1
deriving Inhabited

/-- How many edges of a kind touch a node in one direction. -/
structure EdgeCount where
  kind : EdgeKind
  direction : Direction
  count : Nat
deriving Repr, DecidableEq

/-- The count as a record. -/
def EdgeCount.toJson (c : EdgeCount) : Json :=
  .record [("kind", .str c.kind.name), ("direction", .str c.direction.name), ("count", .nat c.count)]

/-- The most nodes a search for nodes returns. -/
def maxNodeResults : Nat := 200

namespace Graph

/-- The node with an id. -/
def node? (g : Graph) (id : Int) : Option Node := g.nodes.find? (·.id = id)

/-- The node with a kind and key. -/
def find? (g : Graph) (kind : NodeKind) (key : String) : Option Node :=
  g.nodes.find? fun n => n.kind = kind && n.key = key

/-- The id of the node with a kind and key. -/
def nodeId? (g : Graph) (kind : NodeKind) (key : String) : Option Int := (g.find? kind key).map (·.id)

/-- Writes a node and gives its id, which is the old one if a node with its kind and key is there. -/
def upsertNode (g : Graph) (n : NewNode) : Graph × Int :=
  match g.nodeId? n.kind n.key with
  | some id =>
    ({ g with
        nodes := g.nodes.map fun old => if old.id = id then n.stored id else old
        nextNode := g.nextNode + 1 }, id)
  | none =>
    ({ g with nodes := g.nodes ++ [n.stored g.nextNode], nextNode := g.nextNode + 1 }, g.nextNode)

/-- A node that stands for a name until it is defined. -/
def placeholder (kind : NodeKind) (key : String) : NewNode :=
  { kind := kind, key := key, source := .fromSource, metadata := .obj [("inferred", .bool true)] }

/-- The id of a node, which is written as a placeholder if it is not there. -/
def ensureNode (g : Graph) (kind : NodeKind) (key : String) : Graph × Int :=
  match g.nodeId? kind key with
  | some id => (g, id)
  | none => g.upsertNode (placeholder kind key)

/-- Whether `a` stands before `b` by kind and key. -/
def nodeBefore (a b : Node) : Bool :=
  a.kind.name < b.kind.name || (a.kind.name == b.kind.name && a.key ≤ b.key)

/-- Whether a text occurs in a node's key or label, the case of ASCII letters apart. -/
def nodeMatches (part : List Char) (n : Node) : Bool :=
  Text.occursIn part (Text.asciiSmall n.key.toList) || Text.occursIn part (Text.asciiSmall n.label.toList)

/-- The nodes of a kind whose key or label holds a text, by kind and key. A filter of blanks filters nothing. -/
def findNodes (g : Graph) (kind : Option NodeKind) (filter : Option String) (limit : Nat) :
    Outcome (List Node) :=
  if limit = 0 then .error (.invalidQuery .zeroLimit)
  else
    let part := Text.asciiSmall ((filter.map fun f => Text.trim f.toList).getD [])
    let found := g.nodes.filter fun n =>
      (match kind with
        | some k => n.kind = k
        | none => true) && (part.isEmpty || nodeMatches part n)
    .ok ((found.mergeSort nodeBefore).take (min limit maxNodeResults))

/-- The nodes defined in a file. -/
def anchoredTo (g : Graph) (path : String) : List Node :=
  g.nodes.filter fun n => n.anchor.any (·.path = path)

/-- The nodes that come from a source. -/
def bySource (g : Graph) (source : NodeSource) : List Node := g.nodes.filter (·.source = source)

/-- Whether an edge touches a node. -/
def isReferenced (g : Graph) (id : Int) : Bool := g.edges.any fun e => e.source = id || e.target = id

/-- Deletes a node and its edges. -/
def deleteNode (g : Graph) (id : Int) : Graph :=
  { g with
    nodes := g.nodes.filter (·.id ≠ id)
    edges := g.edges.filter fun e => e.source ≠ id && e.target ≠ id }

/-- Turns a node back into a placeholder. -/
def demoteNode (g : Graph) (id : Int) : Graph :=
  { g with nodes := g.nodes.map fun n => if n.id = id then n.demoted else n }

/-- The edge with an id. -/
def edge? (g : Graph) (id : Int) : Option Edge := g.edges.find? (·.id = id)

/-- The edge with a kind and ends. -/
def findEdge? (g : Graph) (kind : EdgeKind) (source target : Int) : Option Edge :=
  g.edges.find? fun e => e.kind = kind && e.source = source && e.target = target

/-- Writes an edge and gives its id. Both ends must exist. -/
def upsertEdge (g : Graph) (n : NewEdge) : Outcome (Graph × Int) :=
  if (g.node? n.source).isNone || (g.node? n.target).isNone then .error (.storage .danglingReference)
  else
    match g.findEdge? n.kind n.source n.target with
    | some old =>
      .ok ({ g with
              edges := g.edges.map fun e => if e.id = old.id then n.stored e.id e.holders else e
              nextEdge := g.nextEdge + 1 }, old.id)
    | none =>
      .ok ({ g with
              edges := g.edges ++ [n.stored g.nextEdge []]
              nextEdge := g.nextEdge + 1 }, g.nextEdge)

/-- The edges an origin holds. -/
def edgesHeldBy (g : Graph) (origin : String) : List Int :=
  (g.edges.filter (·.holders.contains origin)).map (·.id)

/-- The origins that hold an edge. -/
def holdersOf (g : Graph) (id : Int) : List String := ((g.edge? id).map (·.holders)).getD []

/-- Deletes an edge. -/
def deleteEdge (g : Graph) (id : Int) : Graph := { g with edges := g.edges.filter (·.id ≠ id) }

/-- An origin lets go of an edge. The first of the remaining holders becomes its origin; without any it is
deleted. Says whether it was deleted. -/
def releaseEdge (g : Graph) (id : Int) (origin : String) : Graph × Bool :=
  match (g.holdersOf id).filter (· ≠ origin) with
  | [] => (g.deleteEdge id, true)
  | first :: rest =>
    ({ g with
        edges := g.edges.map fun e =>
          if e.id = id then { e with origin := some first, holders := first :: rest } else e }, false)

/-- An origin lets go of all its edges. Says how many were deleted. -/
def deleteEdgesHeldBy (g : Graph) (origin : String) : Graph × Nat :=
  (g.edgesHeldBy origin).foldl (fun (g, n) id =>
    let (g, deleted) := g.releaseEdge id origin
    (g, if deleted then n + 1 else n)) (g, 0)

/-- The edges that leave a node. -/
def edgesFrom (g : Graph) (id : Int) : List Edge := g.edges.filter (·.source = id)

/-- The edges that reach a node. -/
def edgesTo (g : Graph) (id : Int) : List Edge := g.edges.filter (·.target = id)

/-- Counts edges by kind, kinds in the order of their names. -/
def countKinds (direction : Direction) (edges : List Edge) : List EdgeCount :=
  let kinds := (EdgeKind.all.mergeSort fun a b => a.name ≤ b.name)
  (kinds.map fun kind => ⟨kind, direction, edges.countP (·.kind = kind)⟩).filter (0 < ·.count)

/-- How many edges of each kind leave and reach a node. -/
def edgeCounts (g : Graph) (id : Int) : List EdgeCount :=
  countKinds .outward (g.edgesFrom id) ++ countKinds .inward (g.edgesTo id)

/-- A graph without nodes and edges; ids go on where they were. -/
def clear (g : Graph) : Graph := { g with nodes := [], edges := [] }

end Graph

end CodeAtlas
