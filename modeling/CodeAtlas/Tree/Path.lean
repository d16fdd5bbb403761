import CodeAtlas.Error
import CodeAtlas.Text.Basic
/-!
# Paths

A path is read as a list of components. Repeated slashes and a slash at the end do not count, and a dot counts only at the start of a
relative path; two dots stay as they are, since what they mean is up to the tree.
-/

namespace CodeAtlas

open CodeAtlas.Text

/-- A component of a path. -/
inductive Component where
  | root
  | current
  | parent
  | normal (name : String)
deriving Repr, DecidableEq, Inhabited

namespace Component

/-- The text of a component. -/
def text : Component → String
  | .root => "/"
  | .current => "."
  | .parent => ".."
  | .normal name => name

/-- The component that a segment between slashes stands for, dots apart. -/
def ofSegment? (segment : List Char) : Option Component :=
  if segment = [] || segment = ['.'] then none
  else if segment = ['.', '.'] then some .parent
  else some (.normal (String.ofList segment))

end Component

namespace Path

/-- The components of a path. -/
def components (path : String) : List Component :=
  let segments := splitOn '/' path.toList
  let rest := segments.filterMap Component.ofSegment?
  if path.toList.head? = some '/' then .root :: rest
  else if segments.head? = some ['.'] then .current :: rest
  else rest

/-- Whether a path starts at the root of the file system. -/
def isAbsolute (path : String) : Bool := path.toList.head? = some '/'

/-- Whether a path can only lead to a directory: it ends in a slash or a dot. -/
def namesDirectory (path : String) : Bool :=
  match (splitOn '/' path.toList).getLast? with
  | some last => last = [] || last = ['.']
  | none => true

/-- A path seen from a directory; an absolute path stays. -/
def join (dir path : String) : String :=
  if isAbsolute path || dir.isEmpty then path
  else if dir.toList.getLast? = some '/' then dir ++ path
  else dir ++ "/" ++ path

/-- The directory that a path lies in; nothing for a bare name. -/
def parent (path : String) : String :=
  match components path with
  | .root :: rest => "/" ++ "/".intercalate (rest.dropLast.map Component.text)
  | inner => "/".intercalate (inner.dropLast.map Component.text)

/-- What follows the components of a directory. -/
def relativeComponents? : List Component → List Component → Option (List Component)
  | [], path => some path
  | _ :: _, [] => none
  | d :: dir, c :: path => if d = c then relativeComponents? dir path else none

/-- A path inside a directory, seen from the directory, with single slashes. -/
def relative? (dir path : String) : Option String :=
  match relativeComponents? (components dir) (components path) with
  | some (c :: cs) => some ("/".intercalate ((c :: cs).map Component.text))
  | _ => none

/-- The name of the file that a path leads to. -/
def fileName? (path : String) : Option String :=
  match (components path).getLast? with
  | some (.normal name) => some name
  | _ => none

/-- What follows the last dot of a file name, unless the dot is its first character. -/
def extension? (path : String) : Option String :=
  (fileName? path).bind fun name =>
    match splitLast? '.' name.toList with
    | some (stem, ending) => if stem.isEmpty then none else some (String.ofList ending)
    | none => none

/-- Whether a path has one of the wanted extensions, which may be given with a dot. -/
def hasExtension (path : String) (wanted : List String) : Bool :=
  match extension? path with
  | some ending => wanted.any fun w => String.ofList (w.toList.dropWhile (· = '.')) = ending
  | none => false

/-- The names of a path that stays inside the root, or what is wrong with it. -/
def innerNames (path : String) : List Component → Outcome (List String)
  | [] => .ok []
  | .normal name :: rest => (innerNames path rest).map (name :: ·)
  | .current :: rest => innerNames path rest
  | _ :: _ => .error (.invalidQuery (.outsideRoot path))

/-- The form in which a path inside the root is kept. -/
def normalize (path : String) : Outcome String :=
  match innerNames path (components path) with
  | .error e => .error e
  | .ok [] => .error (.invalidQuery .emptyPath)
  | .ok names => .ok ("/".intercalate names)

end Path

end CodeAtlas
