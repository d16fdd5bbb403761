import CodeAtlas.Error
import CodeAtlas.Json.Basic
import CodeAtlas.Text.Case
/-!
# Edges

Typed relations between nodes. Files and their declarations give the structural edges and the associations between
models; the schema gives the edges of tables, columns and indexes. An edge is known by its kind and its two ends, and is held by
every origin (a file, or the schema) that states it.
-/

namespace CodeAtlas

/-- What an edge says. -/
inductive EdgeKind where
  | defines
  | inherits
  | includes
  | extendsModule
  | belongsTo
  | hasMany
  | hasOne
  | hasAndBelongsToMany
  | references
  | hasColumn
  | hasIndex
  | backs
  | requires
deriving Repr, DecidableEq, Inhabited

namespace EdgeKind

/-- The name of a kind. -/
def name : EdgeKind → String
  | .defines => "defines"
  | .inherits => "inherits"
  | .includes => "includes"
  | .extendsModule => "extends"
  | .belongsTo => "belongs_to"
  | .hasMany => "has_many"
  | .hasOne => "has_one"
  | .hasAndBelongsToMany => "has_and_belongs_to_many"
  | .references => "references"
  | .hasColumn => "has_column"
  | .hasIndex => "has_index"
  | .backs => "backs"
  | .requires => "requires"

/-- Every kind. -/
def all : List EdgeKind :=
  [.defines, .inherits, .includes, .extendsModule, .belongsTo, .hasMany, .hasOne, .hasAndBelongsToMany, .references,
    .hasColumn, .hasIndex, .backs, .requires]

/-- The kind with exactly this name. -/
def ofName? (s : String) : Option EdgeKind := all.find? (·.name == s)

/-- The kind a user names; the longest name has a short form. -/
def ofInput (s : String) : Outcome EdgeKind :=
  Error.requireName "edge kind" s ((ofName? s).or (if s = "habtm" then some .hasAndBelongsToMany else none))

/-- Whether edges of this kind associate models. -/
def isAssociation : EdgeKind → Bool
  | .belongsTo | .hasMany | .hasOne | .hasAndBelongsToMany => true
  | _ => false

/-- Whether the far end of such an association is named in the plural. -/
def isCollection : EdgeKind → Bool
  | .hasMany | .hasAndBelongsToMany => true
  | _ => false

end EdgeKind

/-- An edge as stored. `origin` is the holder on record, `holders` all of them in order. -/
structure Edge where
  id : Int
  kind : EdgeKind
  source : Int
  target : Int
  locations : List String
  metadata : Json
  origin : Option String
  holders : List String
deriving Inhabited, Repr

namespace Edge

/-- Adds a holder at its place. -/
def insertHolder (origin : String) : List String → List String
  | [] => [origin]
  | held :: rest =>
    if origin = held then held :: rest
    else if origin < held then origin :: held :: rest
    else held :: insertHolder origin rest

/-- Adds the origin of a write, if it has one. -/
def withHolder (origin : Option String) (holders : List String) : List String :=
  match origin with
  | some o => insertHolder o holders
  | none => holders

/-- The end opposite to a node. -/
def otherEnd (edge : Edge) (node : Int) : Int := if edge.source = node then edge.target else edge.source

/-- The edge as a record. -/
def toJson (edge : Edge) : Json :=
  .record [
    ("id", .int edge.id),
    ("kind", .str edge.kind.name),
    ("src_id", .int edge.source),
    ("dst_id", .int edge.target),
    ("locations", .strings edge.locations),
    ("metadata", edge.metadata),
    ("origin", .optStr edge.origin)]

end Edge

/-- An edge to be written. -/
structure NewEdge where
  kind : EdgeKind
  source : Int
  target : Int
  locations : List String := []
  metadata : Json := .obj []
  origin : Option String := none
deriving Inhabited

/-- The stored form of an edge to be written, where `holders` held it before. -/
def NewEdge.stored (n : NewEdge) (id : Int) (holders : List String) : Edge :=
  { id := id, kind := n.kind, source := n.source, target := n.target, locations := n.locations
    metadata := n.metadata.canonical, origin := n.origin, holders := Edge.withHolder n.origin holders }

/-- Which way edges are followed from a node. -/
inductive Direction where
  | outward
  | inward
  | both
deriving Repr, DecidableEq, Inhabited

namespace Direction

/-- The name of a direction. -/
def name : Direction → String
  | .outward => "out"
  | .inward => "in"
  | .both => "both"

/-- The direction with this name or spelling. -/
def ofName? : String → Option Direction
  | "out" => some .outward
  | "outgoing" => some .outward
  | "in" => some .inward
  | "incoming" => some .inward
  | "both" => some .both
  | "any" => some .both
  | _ => none

/-- The direction a user names, in any case. -/
def ofInput (s : String) : Outcome Direction :=
  Error.requireName "direction" s (ofName? (Text.toSmall s))

end Direction

end CodeAtlas
