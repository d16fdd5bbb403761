import CodeAtlas.Error
import CodeAtlas.Json.Basic
/-!
# Nodes

A node is known by its kind and key. Files are keyed by path, classes and modules by their full name, methods by
`Owner#name` or `Owner.name`, tables by name, columns by `table.column` and indexes by name. A node that was only
referred to so far is a placeholder: its metadata say that it is inferred.
-/

namespace CodeAtlas

/-- What a node stands for. -/
inductive NodeKind where
  | file
  | classDecl
  | moduleDecl
  | method
  | table
  | column
  | index
deriving Repr, DecidableEq, Inhabited

namespace NodeKind

/-- The name of a kind. -/
def name : NodeKind → String
  | .file => "file"
  | .classDecl => "class"
  | .moduleDecl => "module"
  | .method => "method"
  | .table => "table"
  | .column => "column"
  | .index => "index"

/-- Every kind. -/
def all : List NodeKind := [.file, .classDecl, .moduleDecl, .method, .table, .column, .index]

/-- The kind with exactly this name. -/
def ofName? (s : String) : Option NodeKind := all.find? (·.name == s)

/-- The kind a user names. -/
def ofInput (s : String) : Outcome NodeKind := Error.requireName "node kind" s (ofName? s)

/-- Whether nodes of this kind come from the schema. -/
def isSchema : NodeKind → Bool
  | .table | .column | .index => true
  | _ => false

end NodeKind

/-- Where the data of a node come from. -/
inductive NodeSource where
  | fromSource
  | fromSchema
  | manual
deriving Repr, DecidableEq, Inhabited

namespace NodeSource

/-- The name of a source. -/
def name : NodeSource → String
  | .fromSource => "from-source"
  | .fromSchema => "from-schema"
  | .manual => "manual"

/-- Every source. -/
def all : List NodeSource := [.fromSource, .fromSchema, .manual]

/-- The source with exactly this name. -/
def ofName? (s : String) : Option NodeSource := all.find? (·.name == s)

/-- The source a user names. -/
def ofInput (s : String) : Outcome NodeSource := Error.requireName "node source" s (ofName? s)

end NodeSource

/-- The lines of a file that define a node. -/
structure Anchor where
  path : String
  startLine : Nat
  endLine : Nat
deriving Repr, DecidableEq, Inhabited

/-- The anchor as a record. -/
def Anchor.toJson (anchor : Anchor) : Json :=
  .record [("path", .str anchor.path), ("start_line", .nat anchor.startLine), ("end_line", .nat anchor.endLine)]

/-- A node as stored. -/
structure Node where
  id : Int
  kind : NodeKind
  key : String
  label : String
  source : NodeSource
  anchor : Option Anchor
  metadata : Json
deriving Inhabited, Repr

namespace Node

/-- Placeholders stand for names that were referred to and not defined so far. -/
def isInferred (node : Node) : Bool := ((node.metadata.get? "inferred").bind Json.bool?).getD false

/-- The reference that names exactly this node. -/
def reference (node : Node) : String := node.kind.name ++ ":" ++ node.key

/-- A node turned back into a placeholder: its anchor goes and its metadata say that it is inferred. -/
def demoted (n : Node) : Node :=
  { n with anchor := none, metadata := n.metadata.set "inferred" (.bool true) }

/-- The node as a record. -/
def toJson (node : Node) : Json :=
  .record [
    ("id", .int node.id),
    ("kind", .str node.kind.name),
    ("key", .str node.key),
    ("label", .str node.label),
    ("source", .str node.source.name),
    ("anchor", .ofOption Anchor.toJson node.anchor),
    ("metadata", node.metadata)]

end Node

/-- A node to be written. Without a label of its own its key is the label. -/
structure NewNode where
  kind : NodeKind
  key : String
  label : Option String := none
  source : NodeSource
  anchor : Option Anchor := none
  metadata : Json := .obj []
deriving Inhabited

/-- The stored form of a node to be written. -/
def NewNode.stored (n : NewNode) (id : Int) : Node :=
  { id := id, kind := n.kind, key := n.key, label := n.label.getD n.key, source := n.source
    anchor := n.anchor, metadata := n.metadata.canonical }

end CodeAtlas
