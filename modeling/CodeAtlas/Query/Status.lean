import CodeAtlas.Store
/-!
# The state of an index

What an index holds in numbers, and whether its schema is there and up to date.
-/

namespace CodeAtlas

/-- The state of an index over a tree. `schemaError` is the last failure to read the schema file. -/
structure IndexStatus where
  root : String
  stats : Stats
  schemaIndexed : Bool
  schemaError : Option String
deriving Repr, Inhabited

/-- The state as a record. -/
def IndexStatus.toJson (s : IndexStatus) : Json :=
  .record (("root", .str s.root) :: s.stats.fields ++ [("schema_indexed", .bool s.schemaIndexed)] ++
    (s.schemaError.map fun text => ("schema_error", Json.str text)).toList)

/-- The state of an index over the tree at `root`. -/
def Store.status (s : Store) (root : String) : IndexStatus where
  root := root
  stats := s.stats
  schemaIndexed := (s.note? Store.schemaFingerprint).isSome
  schemaError := s.note? Store.schemaError

end CodeAtlas
