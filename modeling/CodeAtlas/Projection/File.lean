import CodeAtlas.Outline.Basic
import CodeAtlas.Projection.Unit
import CodeAtlas.Inflection
/-!
# Projecting a file

The outline of a file as a unit: a node for the file and for each class, module and method, edges from the file and from
the enclosing class or module, and edges for superclasses, mixed-in modules, required files and associations.
-/

namespace CodeAtlas.Projection

open CodeAtlas.Text

/-- The ending of source files. -/
def sourceEnding : List Char := ".rb".toList

/-- A path with the ending of source files. -/
def withSourceEnding (path : List Char) : List Char :=
  if endsWith sourceEnding path then path else path ++ sourceEnding

/-- Follows one segment of a relative path from a directory. -/
def followSegment (dir : List (List Char)) (segment : List Char) : List (List Char) :=
  if segment = [] || segment = ['.'] then dir
  else if segment = ['.', '.'] then dir.dropLast
  else dir ++ [segment]

/-- The file that a relative path names, seen from the file it stands in. -/
def resolveRelative (source target : String) : String :=
  let dir := (splitOn '/' source.toList).dropLast
  let segments := (splitOn '/' target.toList).foldl followSegment dir
  String.ofList (withSourceEnding (joinWith ['/'] segments))

/-- The key of a method: `Owner#name`, or `Owner.name` on the class. -/
def methodKey (d : Declaration) : String :=
  match d.enclosing with
  | some owner => owner ++ (if d.isClassMethod then "." else "#") ++ d.bareName
  | none => d.bareName

/-- Kind and key of the node of a declaration. -/
def nodeOf? (d : Declaration) : Option (NodeKind × String) :=
  match d.kind with
  | .classDecl => some (.classDecl, d.name)
  | .moduleDecl => some (.moduleDecl, d.name)
  | .method => some (.method, methodKey d)
  | _ => none

/-- The metadata of the node of a declaration. -/
def metadataOf (d : Declaration) : Json :=
  .record ([("visibility", .str d.visibility.name)] ++ (d.signature.map fun s => ("signature", Json.str s)).toList ++
    (d.superclass.map fun s => ("superclass", Json.str s)).toList ++
    (if d.kind = .method && d.isClassMethod then [("class_method", .bool true)] else []))

/-- The class at the far end of an association: as stated, else by its options, else by its name. -/
def associationTarget (a : DeclaredAssociation) : String :=
  match (a.target.filter (!·.isEmpty)).or a.className? with
  | some name => String.ofList (dropAllStart [':', ':'] name.toList)
  | none =>
    if a.word.edgeKind.isCollection then Inflection.classify a.name else Inflection.camelize a.name

/-- The first nodes of classes and modules that a file declares. -/
structure Primary where
  container : Option Int := none
  class? : Option Int := none

/-- The node that encloses a declaration, if it was written in this run. -/
def owner? (cache : BuildCache) (d : Declaration) : Option Int :=
  d.enclosing.bind fun name => (cache.lookup .classDecl name).or (cache.lookup .moduleDecl name)

/-- Writes a declaration. -/
def writeDeclaration (path : String) (file : Int) (primary : Primary) (d : Declaration) : Build Primary := do
  match nodeOf? d with
  | none => return primary
  | some (kind, key) =>
    let owner := owner? (← get).cache d
    let id ← writeNode {
      kind := kind, key := key, source := .fromSource
      anchor := some ⟨path, d.startLine, d.endLine⟩, metadata := metadataOf d }
    let location := path ++ ":" ++ toString d.startLine
    writeEdge path { kind := .defines, source := file, target := id, locations := [location] }
    match owner.filter (· ≠ id) with
    | some owner => writeEdge path { kind := .defines, source := owner, target := id, locations := [location] }
    | none => pure ()
    match kind with
    | .classDecl =>
      match d.superclass with
      | some name =>
        let parent ← resolve .classDecl name
        writeEdge path { kind := .inherits, source := id, target := parent, locations := [location] }
      | none => pure ()
      return { container := primary.container.or (some id), class? := primary.class?.or (some id) }
    | .moduleDecl => return { primary with container := primary.container.or (some id) }
    | _ => return primary

/-- Writes declarations in turn. -/
def writeDeclarations (path : String) (file : Int) : Primary → List Declaration → Build Primary
  | primary, [] => return primary
  | primary, d :: rest => do
    let primary ← writeDeclaration path file primary d
    writeDeclarations path file primary rest

/-- Writes edges to the modules mixed in. -/
def writeMixins (path : String) (kind : EdgeKind) (owner : Int) : List String → Build Unit
  | [] => return ()
  | name :: rest => do
    let target ← resolve .moduleDecl name
    writeEdge path { kind := kind, source := owner, target := target }
    writeMixins path kind owner rest

/-- The file that a plain `require` names: under `lib` if there is such a file, else as it stands. -/
def requireTarget (w : Work) (required : String) : String :=
  let file := withSourceEnding required.toList
  let inLib := String.ofList ("lib/".toList ++ file)
  if w.cache.isBuilt .file inLib || (w.graph.nodeId? .file inLib).isSome then inLib else String.ofList file

/-- Writes edges to the files required. -/
def writeRequires (path : String) (file : Int) : List String → Build Unit
  | [] => return ()
  | required :: rest => do
    let target ← resolve .file (requireTarget (← get) required)
    writeEdge path {
      kind := .requires, source := file, target := target, metadata := .obj [("require", .str required)] }
    writeRequires path file rest

/-- Writes edges to the files required by relative paths. -/
def writeRelatives (path : String) (file : Int) : List String → Build Unit
  | [] => return ()
  | relative :: rest => do
    let target ← resolve .file (resolveRelative path relative)
    writeEdge path {
      kind := .requires, source := file, target := target, metadata := .obj [("require_relative", .str relative)] }
    writeRelatives path file rest

/-- Writes the associations of a class. -/
def writeAssociations (path : String) (owner : Int) : List DeclaredAssociation → Build Unit
  | [] => return ()
  | a :: rest => do
    let target ← resolve .classDecl (associationTarget a)
    writeEdge path {
      kind := a.word.edgeKind, source := owner, target := target
      locations := (a.line.map fun line => path ++ ":" ++ toString line).toList
      metadata := .record [("name", .str a.name), ("options", .obj a.options)] }
    writeAssociations path owner rest

/-- Writes everything a file says. -/
def writeFile (path : String) (category : Category) (o : Outline) : Build Unit := do
  let lineCount := max (o.lineCount.getD 0) 1
  let file ← writeNode {
    kind := .file, key := path, source := .fromSource, anchor := some ⟨path, 1, lineCount⟩
    metadata := .record [("category", .str category.name), ("line_count", .nat lineCount)] }
  let primary ← writeDeclarations path file {} o.declarations
  let mixinOwner := primary.container.getD file
  writeMixins path .includes mixinOwner o.includes
  writeMixins path .extendsModule mixinOwner o.extensions
  writeRequires path file o.requires
  writeRelatives path file o.requireRelatives
  match primary.class? with
  | some owner => writeAssociations path owner o.associations
  | none => return ()

/-- Projects the outline of a file in place of what the file said before. -/
def projectFile (c : Catalog) (g : Graph) (cache : BuildCache) (path : String) (category : Category)
    (o : Outline) : Result :=
  runUnit c g cache path (g.anchoredTo path) (writeFile path category o)

/-- Takes back all that a file said. -/
def retractFile (c : Catalog) (g : Graph) (cache : BuildCache) (path : String) : Result :=
  runUnit c g cache path (g.anchoredTo path) (return ())

end CodeAtlas.Projection
