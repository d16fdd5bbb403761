import CodeAtlas.Tree.Path
import CodeAtlas.Text.Utf8
/-!
# Source trees

The files below a directory, by their names from the directory down. Directories are remembered when files are written into
them, and stay when the files go.
-/

namespace CodeAtlas

/-- A file: its bytes, and when it was last changed, in seconds of the clock. -/
structure SourceFile where
  bytes : List UInt8
  modified : Int
deriving Repr, DecidableEq, Inhabited

/-- The text of a file. -/
def SourceFile.text (f : SourceFile) : String := Text.decode f.bytes

/-- A directory above the root of a tree: the names from it down to the root, and the files below it. -/
structure OuterDirectory where
  down : List String
  files : List (List String × SourceFile)
deriving Inhabited

/-- The files below `root`, which is an absolute path. `outer` are the directories above it, nearest first, as far as they are known; and programs may be run
in the root, or elsewhere. -/
structure Tree where
  root : String
  files : List (List String × SourceFile) := []
  directories : List (List String) := []
  outer : List OuterDirectory := []
  isWorkingDirectory : Bool := false
deriving Inhabited

namespace Tree

/-- The files with these names. -/
def lookup (t : Tree) (names : List String) : Option SourceFile := t.files.lookup names

/-- Whether these names lead to a directory. -/
def isDirectory (t : Tree) (names : List String) : Bool := names.isEmpty || t.directories.contains names

/-- The directories above a place. -/
def above (names : List String) : List (List String) :=
  (List.range names.length).map fun n => names.take n

/-- Remembers the directories above a place. -/
def addDirectories (t : Tree) (names : List String) : Tree :=
  { t with
    directories := t.directories ++
      ((above names).filter fun d => !d.isEmpty && !t.directories.contains d) }

/-- Writes a file. -/
def write (t : Tree) (names : List String) (f : SourceFile) : Tree :=
  let t := t.addDirectories names
  { t with files := t.files.filter (·.1 ≠ names) ++ [(names, f)] }

/-- Deletes a file. -/
def delete (t : Tree) (names : List String) : Tree := { t with files := t.files.filter (·.1 ≠ names) }

/-- Follows components from a directory. A step up from the root leaves the tree; a step down needs a directory to go on from. -/
def follow (t : Tree) : List String → List Component → Option (List String)
  | at_, [] => some at_
  | at_, .current :: rest => if t.isDirectory at_ then t.follow at_ rest else none
  | _, .root :: _ => none
  | at_, .parent :: rest =>
    if t.isDirectory at_ && !at_.isEmpty then t.follow at_.dropLast rest else none
  | at_, .normal name :: rest => if t.isDirectory at_ then t.follow (at_ ++ [name]) rest else none

/-- Where a path leads. Relative paths are seen from the root of the tree. -/
def locate? (t : Tree) (path : String) : Option (List String) :=
  let inner :=
    if Path.isAbsolute path then Path.relativeComponents? (Path.components t.root) (Path.components path)
    else some (Path.components path)
  (inner.bind (t.follow [])).filter fun names => !Path.namesDirectory path || t.isDirectory names

/-- The file a path leads to. -/
def file? (t : Tree) (path : String) : Option SourceFile := (t.locate? path).bind t.lookup

/-- Whether a path leads to a file. -/
def isFile (t : Tree) (path : String) : Bool := (t.file? path).isSome

/-- Whether a path leads anywhere. -/
def exists? (t : Tree) (path : String) : Bool :=
  match t.locate? path with
  | some names => t.isDirectory names || (t.lookup names).isSome
  | none => false

/-- What lies below a place, by the names from there on. -/
def filesBelow (names : List String) (files : List (List String × SourceFile)) : List (List String × SourceFile) :=
  files.filterMap fun (file, content) =>
    if names.isPrefixOf file && names.length < file.length then some (file.drop names.length, content) else none

/-- The tree below a directory. -/
def below (t : Tree) (names : List String) : Tree :=
  if names.isEmpty then t
  else
    { root := Path.join t.root ("/".intercalate names)
      files := filesBelow names t.files
      directories := (t.directories.filter fun d => names.isPrefixOf d && names.length < d.length).map
        (·.drop names.length)
      outer := (above names).reverse.map (fun dir => ⟨names.drop dir.length, filesBelow dir t.files⟩) ++
        t.outer.map fun o => { o with down := o.down ++ names } }

/-- The names of a place as a path from the root. -/
def pathOf (names : List String) : String := "/".intercalate names

/-- The names on a relative path that is written plainly. -/
def namesOf (path : String) : List String := (Path.components path).map Component.text

end Tree

end CodeAtlas
