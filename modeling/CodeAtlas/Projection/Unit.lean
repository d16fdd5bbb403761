import CodeAtlas.Catalog.Basic
import CodeAtlas.Graph.Store
import CodeAtlas.Projection.Cache
/-!
# Units of work on the graph

A file, or the schema, is projected into the graph as one unit. Every edge it writes is held by the unit's origin. At the end the
unit lets go of the edges that it held before and has not written again, and deals with the nodes that were its own before
and were not written again: one that another file still defines moves there, one that is still referred to becomes a
placeholder, and any other is deleted. What is written again keeps its id.
-/

namespace CodeAtlas

/-- What a unit did. -/
structure ProjectionStats where
  nodes : Nat := 0
  edges : Nat := 0
  pruned : Nat := 0
  demoted : Nat := 0
  reanchored : Nat := 0
deriving Repr, DecidableEq, Inhabited

namespace ProjectionStats

/-- What a unit did, in words. -/
def describe (s : ProjectionStats) : String :=
  toString s.nodes ++ " nodes, " ++ toString s.edges ++ " edges (" ++ toString s.pruned ++ " pruned, " ++
    toString s.demoted ++ " demoted, " ++ toString s.reanchored ++ " re-anchored)"

/-- What a unit did, as a record. -/
def toJson (s : ProjectionStats) : Json :=
  .record [
    ("nodes", .nat s.nodes),
    ("edges", .nat s.edges),
    ("pruned", .nat s.pruned),
    ("demoted", .nat s.demoted),
    ("reanchored", .nat s.reanchored)]

end ProjectionStats

/-- The state of a unit: the graph, the cache of the run, the edges held before and not written again so far, and the nodes
written. -/
structure Work where
  graph : Graph
  cache : BuildCache
  stale : List Int := []
  touched : List Int := []
  stats : ProjectionStats := {}
deriving Inhabited

/-- A step of a unit. A step that fails keeps what was done before it. -/
abbrev Build := ExceptT Error (StateM Work)

namespace Projection

/-- Writes a node of the unit. -/
def writeNode (n : NewNode) : Build Int := do
  let w ← get
  let (graph, id) := w.graph.upsertNode n
  let fresh := !w.touched.contains id
  set { w with
    graph := graph
    cache := w.cache.record n.kind n.key id
    touched := if fresh then w.touched ++ [id] else w.touched
    stats := if fresh then { w.stats with nodes := w.stats.nodes + 1 } else w.stats }
  return id

/-- The node a name refers to, as a placeholder if it is not there. -/
def resolve (kind : NodeKind) (key : String) : Build Int := do
  let w ← get
  match w.cache.lookup kind key with
  | some id => return id
  | none =>
    let (graph, id) := w.graph.ensureNode kind key
    set { w with graph := graph }
    return id

/-- Writes an edge of the unit, held by its origin. -/
def writeEdge (origin : String) (e : NewEdge) : Build Unit := do
  let w ← get
  match w.graph.upsertEdge { e with origin := some origin } with
  | .error e => throw e
  | .ok (graph, id) =>
    set { w with
      graph := graph
      stale := w.stale.filter (· ≠ id)
      stats := { w.stats with edges := w.stats.edges + 1 } }

/-- The kind of symbol that defines a kind of node. -/
def definingKind? : NodeKind → Option SymbolKind
  | .classDecl => some .classDecl
  | .moduleDecl => some .moduleDecl
  | .method => some .method
  | _ => none

/-- The line of a location `path:line`. -/
def locationLine? (location : String) : Option Nat :=
  (Text.splitLast? ':' location.toList).bind fun (_, line) => Number.word32? line

/-- The superclass that a file states for a node. -/
def superclassFrom? (g : Graph) (id : Int) (path : String) : Option String :=
  (g.edgesFrom id).findSome? fun e =>
    if e.kind = .inherits && e.holders.contains path then (g.node? e.target).map (·.key) else none

/-- The node as a file defines it, rebuilt from the symbol stored for the line, where there is one. -/
def redefinition (c : Catalog) (g : Graph) (node : Node) (kind : SymbolKind) (path : String) (line : Nat) : NewNode :=
  let symbol := (c.symbolsIn path).find? fun s => s.kind = kind && s.startLine = line
  let anchor : Anchor := match symbol with
    | some s => ⟨path, s.startLine, s.endLine⟩
    | none => ⟨path, line, line⟩
  let described : List (String × Json) := match symbol with
    | some s => ("visibility", .str s.visibility.name) :: (s.signature.map fun t => ("signature", Json.str t)).toList
    | none => []
  let superclass := (superclassFrom? g node.id path).map fun name => ("superclass", Json.str name)
  let classMethod := match node.metadata.get? "class_method" with
    | some (.bool true) => [("class_method", Json.bool true)]
    | _ => []
  { kind := node.kind
    key := node.key
    label := if node.label = node.key then none else some node.label
    source := .fromSource
    anchor := some anchor
    metadata := .record (described ++ superclass.toList ++ classMethod) }

/-- The file and line that an edge gives for the definition of a node, unless the file is `origin`. -/
def definition? (g : Graph) (origin : String) (e : Edge) : Option (String × Nat) :=
  if e.kind ≠ .defines then none
  else
    match g.node? e.source with
    | none => none
    | some file =>
      if file.kind ≠ .file || file.key = origin then none
      else (e.locations.findSome? locationLine?).map fun line => (file.key, line)

/-- A node as another file defines it. -/
def definedElsewhere? (c : Catalog) (g : Graph) (origin : String) (node : Node) : Option NewNode :=
  (definingKind? node.kind).bind fun kind =>
    ((g.edgesTo node.id).findSome? (definition? g origin)).map fun (path, line) =>
      redefinition c g node kind path line

/-- Deals with a node that was the unit's own before. -/
def settle (c : Catalog) (origin : String) (node : Node) (w : Work) : Work :=
  if w.touched.contains node.id then w
  else
    match definedElsewhere? c w.graph origin node with
    | some definition =>
      { w with
        graph := (w.graph.upsertNode definition).1
        stats := { w.stats with reanchored := w.stats.reanchored + 1 } }
    | none =>
      let w := { w with cache := w.cache.forget node.kind node.key }
      if w.graph.isReferenced node.id then
        { w with
          graph := w.graph.demoteNode node.id
          stats := { w.stats with demoted := w.stats.demoted + 1 } }
      else
        { w with
          graph := w.graph.deleteNode node.id
          stats := { w.stats with pruned := w.stats.pruned + 1 } }

/-- Lets go of the edges that were not written again. -/
def releaseStale (origin : String) (w : Work) : Work :=
  { w with
    graph := w.stale.foldl (fun g id => (g.releaseEdge id origin).1) w.graph
    stale := [] }

/-- The end of a unit, where `previous` were its own nodes before. -/
def prune (c : Catalog) (origin : String) (previous : List Node) (w : Work) : Work :=
  previous.foldl (fun w node => settle c origin node w) (releaseStale origin w)

/-- What a unit leaves: the graph and the cache, also if it failed, and what it did. -/
structure Result where
  graph : Graph
  cache : BuildCache
  outcome : Outcome ProjectionStats

/-- Runs a unit: its writes, and then its end. -/
def runUnit (c : Catalog) (g : Graph) (cache : BuildCache) (origin : String) (previous : List Node)
    (writes : Build Unit) : Result :=
  let (outcome, w) := writes.run.run { graph := g, cache := cache, stale := g.edgesHeldBy origin }
  match outcome with
  | .error e => ⟨w.graph, w.cache, .error e⟩
  | .ok () =>
    let w := prune c origin previous w
    ⟨w.graph, w.cache, .ok w.stats⟩

end Projection

end CodeAtlas
