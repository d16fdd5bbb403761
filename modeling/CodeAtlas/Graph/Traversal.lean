import CodeAtlas.Graph.Store
/-!
# Neighbourhoods

The part of the graph around a node, found level by level. On each level the edges are looked at in the order of
their ids; a node is listed when it is first reached, and an edge when it is first followed.
-/

namespace CodeAtlas

/-- The most steps a neighbourhood goes. -/
def maxDepth : Nat := 3

/-- A requested depth brought into bounds. -/
def clampDepth (depth : Nat) : Nat := max 1 (min maxDepth depth)

/-- The nodes and edges around a node, each once, in the order of discovery. -/
structure Neighborhood where
  start : Int
  depth : Nat
  nodes : List Node
  edges : List Edge
deriving Inhabited

namespace Neighborhood

/-- A node of the neighbourhood by its id. -/
def node? (hood : Neighborhood) (id : Int) : Option Node := hood.nodes.find? (·.id = id)

/-- The neighbourhood as a record. -/
def toJson (hood : Neighborhood) : Json :=
  .record [
    ("start_id", .int hood.start),
    ("depth", .nat hood.depth),
    ("nodes", .arr (hood.nodes.map Node.toJson)),
    ("edges", .arr (hood.edges.map Edge.toJson))]

end Neighborhood

namespace Graph

/-- Whether an edge may be followed: an empty list of kinds allows all. -/
def allows (kinds : List EdgeKind) (e : Edge) : Bool := kinds.isEmpty || kinds.contains e.kind

/-- The ends that an edge leads to from the nodes of a level. -/
def reached (direction : Direction) (frontier : List Int) (e : Edge) : List Int :=
  (if direction ≠ .inward && frontier.contains e.source then [e.target] else []) ++
    (if direction ≠ .outward && frontier.contains e.target then [e.source] else [])

/-- What has been found: nodes and edges in the order of discovery, and the nodes found on the last level. -/
structure Search where
  nodes : List Int
  edges : List Edge := []
  frontier : List Int
deriving Inhabited

/-- Adds to `found` the nodes that are in neither list. -/
def discover (known : List Int) (found : List Int) (ids : List Int) : List Int :=
  ids.foldl (fun found id => if known.contains id || found.contains id then found else found ++ [id]) found

/-- The edges to be followed from a level, in the order of their ids. -/
def levelEdges (g : Graph) (kinds : List EdgeKind) (direction : Direction) (s : Search) : List Edge :=
  g.edges.filter fun e =>
    allows kinds e && !(reached direction s.frontier e).isEmpty && !s.edges.any (·.id = e.id)

/-- One more level. -/
def expand (g : Graph) (kinds : List EdgeKind) (direction : Direction) (s : Search) : Search :=
  let edges := g.levelEdges kinds direction s
  let found := edges.foldl (fun found e => discover s.nodes found (reached direction s.frontier e)) []
  { nodes := s.nodes ++ found, edges := s.edges ++ edges, frontier := found }

/-- A number of levels. -/
def expandTimes (g : Graph) (kinds : List EdgeKind) (direction : Direction) : Nat → Search → Search
  | 0, s => s
  | n + 1, s => g.expandTimes kinds direction n (g.expand kinds direction s)

/-- The neighbourhood of a node. -/
def neighbors (g : Graph) (start : Int) (kinds : List EdgeKind) (direction : Direction) (depth : Nat) :
    Outcome Neighborhood :=
  match g.node? start with
  | none => .error (.notFound (.node (toString start)))
  | some _ =>
    let depth := clampDepth depth
    let s := g.expandTimes kinds direction depth { nodes := [start], frontier := [start] }
    .ok { start := start, depth := depth, nodes := s.nodes.filterMap g.node?, edges := s.edges }

end Graph

end CodeAtlas
