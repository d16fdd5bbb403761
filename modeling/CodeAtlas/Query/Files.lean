import CodeAtlas.Inflection
import CodeAtlas.Query.Ranking
import CodeAtlas.Tree.Basic
/-!
# Queries about files

The test files of a source file by naming conventions, what an indexed file holds, and the files that are built like it. Two files are
compared by their features, the kinds and names of their symbols; classes and modules are left out, so that two
models with the same associations and methods are alike whatever they are called.
-/

namespace CodeAtlas

namespace Query

/-- Drops what occurred before. -/
def distinct (names : List String) : List String :=
  names.foldl (fun seen name => if seen.contains name then seen else seen ++ [name]) []

/-- The last segment of a path. -/
def lastSegment (path : List Char) : List Char := ((Text.splitOn '/' path).getLast?).getD path

/-- A path made of parts. -/
def pathWith (beginning : String) (middle : List Char) (ending : String) : String :=
  beginning ++ String.ofList middle ++ ending

/-- Further test files that the category of a file suggests. -/
def conventionalTests (category : Category) (stem : List Char) : List String :=
  let name := lastSegment stem
  match category with
  | .model =>
    let plural := (Inflection.pluralize (String.ofList name)).toList
    [pathWith "spec/requests/" plural "_spec.rb", pathWith "spec/integration/" plural "_spec.rb"]
  | .controller =>
    match Text.before? "_controller".toList name with
    | some resource =>
      [pathWith "spec/requests/" resource "_spec.rb", pathWith "test/integration/" resource "_test.rb"]
    | none => []
  | _ => []

/-- Where the tests of a file would be, likeliest first. Tests have no tests. -/
def testCandidates (path : String) : List String :=
  match Text.before? ".rb".toList path.toList with
  | none => []
  | some stem =>
    let category := Category.classify path
    if category = .spec then []
    else
      let inner := (Text.after? "app/".toList stem).getD stem
      distinct ([pathWith "spec/" inner "_spec.rb", pathWith "test/" inner "_test.rb"] ++
        conventionalTests category stem)

end Query

/-- The test files of a file that are there. -/
def Tree.testsOf (t : Tree) (path : String) : Outcome (List String) :=
  (Path.normalize path).map fun path => (Query.testCandidates path).filter t.isFile

/-- What an indexed file holds: its symbols by kind, the files it requires and those that require it. -/
structure FileSummary where
  file : FileRecord
  symbols : List (String × List Symbol)
  requires : List String
  requiredBy : List String
deriving Repr, DecidableEq

/-- The summary as a record. -/
def FileSummary.toJson (s : FileSummary) : Json :=
  .record [
    ("file", s.file.toJson),
    ("symbols", .obj (s.symbols.map fun (kind, symbols) => (kind, .arr (symbols.map Symbol.toJson)))),
    ("requires", .strings s.requires),
    ("required_by", .strings s.requiredBy)]

namespace Query

/-- Symbols by the names of their kinds. -/
def byKind (symbols : List Symbol) : List (String × List Symbol) :=
  let kinds := SymbolKind.all.mergeSort fun a b => a.name ≤ b.name
  (kinds.map fun kind => (kind.name, symbols.filter (·.kind = kind))).filter (!·.2.isEmpty)

/-- The keys of nodes, in order. -/
def sortedKeys (g : Graph) (ids : List Int) : List String :=
  ((ids.filterMap g.node?).map (·.key)).mergeSort fun a b => a ≤ b

/-- The features of symbols, in order and each once. -/
def features (symbols : List Symbol) : List String :=
  distinct (((symbols.filter fun s => !s.kind.isContainer).map fun s => s.kind.name ++ ":" ++ s.name).mergeSort
    fun a b => a ≤ b)

end Query

/-- An indexed file by a path in any form. -/
def Store.requireFile (s : Store) (path : String) : Outcome FileRecord :=
  match Path.normalize path with
  | .error e => .error e
  | .ok inner =>
    match s.catalog.file? inner with
    | some file => .ok file
    | none => .error (.notFound (.indexedFile inner))

/-- What an indexed file holds. -/
def Store.fileSummary (s : Store) (path : String) : Outcome FileSummary :=
  (s.requireFile path).map fun file =>
    let node := s.graph.nodeId? .file file.path
    let out := (node.map s.graph.edgesFrom).getD []
    let back := (node.map s.graph.edgesTo).getD []
    { file := file
      symbols := Query.byKind (s.catalog.symbolsIn file.path)
      requires := Query.sortedKeys s.graph ((out.filter (·.kind = .requires)).map (·.target))
      requiredBy := Query.sortedKeys s.graph ((back.filter (·.kind = .requires)).map (·.source)) }

/-- A file that is built like another one. `shared` are the features that both have, and `similarity` is their share in the features
of either. -/
structure SimilarFile where
  path : String
  category : Category
  similarity : Float
  shared : List String
deriving Inhabited

/-- The similar file as a record. -/
def SimilarFile.toJson (f : SimilarFile) : Json :=
  .record [
    ("path", .str f.path),
    ("category", .str f.category.name),
    ("similarity", .real (Number.Binary.ofFloat f.similarity)),
    ("shared", .strings f.shared)]

namespace Query

/-- How a file compares with features. -/
def compare (c : Catalog) (target : List String) (file : FileRecord) : SimilarFile :=
  let other := features (c.symbolsIn file.path)
  let shared := target.filter other.contains
  let either := target.length + other.length - shared.length
  { path := file.path, category := file.category, similarity := Float.ofNat shared.length / Float.ofNat either
    shared := shared }

end Query

/-- The files whose features have at least a share of `least` in common with those of a file, most alike first, and by path where equally so. -/
def Store.similarFiles (s : Store) (path : String) (limit : Nat) (least : Float) : Outcome (List SimilarFile) := do
  let limit ← Query.resultLimit limit
  if !(0.0 ≤ least && least ≤ 1.0) then
    throw (.invalidQuery (.similarity (String.ofList (Number.Binary.ofFloat least).plain)))
  let file ← s.requireFile path
  let target := Query.features (s.catalog.symbolsIn file.path)
  let others := (s.catalog.listFiles.filter (·.path ≠ file.path)).map (Query.compare s.catalog target)
  let alike := others.filter fun f => !f.shared.isEmpty && least ≤ f.similarity
  return (alike.mergeSort fun a b => b.similarity ≤ a.similarity).take limit

end CodeAtlas
