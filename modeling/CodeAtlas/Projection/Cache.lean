import CodeAtlas.Graph.Node
/-!
# The cache of a run

Which nodes have been written so far in a run, by kind and key. What a unit of work writes is pending until the unit is
committed; when the unit is rolled back it is dropped.
-/

namespace CodeAtlas

/-- Ids of nodes by kind and key. -/
abbrev NodeIds := List ((NodeKind × String) × Int)

namespace NodeIds

/-- The id of a node. -/
def get? (ids : NodeIds) (kind : NodeKind) (key : String) : Option Int := ids.lookup (kind, key)

/-- Forgets a node. -/
def erase (ids : NodeIds) (kind : NodeKind) (key : String) : NodeIds := ids.filter (·.1 ≠ (kind, key))

/-- Records the id of a node over what was recorded for it. -/
def insert (ids : NodeIds) (kind : NodeKind) (key : String) (id : Int) : NodeIds :=
  ((kind, key), id) :: ids.erase kind key

/-- Records all of `other`. -/
def union (ids other : NodeIds) : NodeIds :=
  other.foldr (fun ((kind, key), id) ids => ids.insert kind key id) ids

end NodeIds

/-- The nodes written so far, committed and pending. -/
structure BuildCache where
  committed : NodeIds := []
  pending : NodeIds := []
deriving Repr, DecidableEq, Inhabited

namespace BuildCache

/-- The id of a node written in this run. -/
def lookup (c : BuildCache) (kind : NodeKind) (key : String) : Option Int :=
  (c.pending.get? kind key).or (c.committed.get? kind key)

/-- Whether a node was written in this run. -/
def isBuilt (c : BuildCache) (kind : NodeKind) (key : String) : Bool := (c.lookup kind key).isSome

/-- Records a node. -/
def record (c : BuildCache) (kind : NodeKind) (key : String) (id : Int) : BuildCache :=
  { c with pending := c.pending.insert kind key id }

/-- Keeps what is pending. -/
def commit (c : BuildCache) : BuildCache := { committed := c.committed.union c.pending, pending := [] }

/-- Drops what is pending. -/
def rollback (c : BuildCache) : BuildCache := { c with pending := [] }

/-- Forgets a node that was deleted, wherever it is recorded. -/
def forget (c : BuildCache) (kind : NodeKind) (key : String) : BuildCache :=
  { committed := c.committed.erase kind key, pending := c.pending.erase kind key }

/-- The number of records. -/
def size (c : BuildCache) : Nat := c.committed.length + c.pending.length

/-- Whether nothing is recorded. -/
def isEmpty (c : BuildCache) : Bool := c.committed.isEmpty && c.pending.isEmpty

end BuildCache

end CodeAtlas
