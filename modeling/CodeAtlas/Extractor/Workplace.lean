import CodeAtlas.Extractor.Process
import CodeAtlas.Tree.Basic
/-!
# Workplaces

What a program sees of the files: a tree, and the directory in which it runs, if that is known. Relative paths start at the directory; where it is
unknown they lead nowhere.
-/

namespace CodeAtlas

/-- A tree of files and the directory in which programs run. -/
structure Workplace where
  tree : Tree
  directory : Option String
deriving Inhabited

namespace Workplace

/-- The workplace at the root of a tree, or beside it. -/
def ofTree (t : Tree) : Workplace := { tree := t, directory := if t.isWorkingDirectory then some t.root else none }

/-- A path seen from the top of all files. -/
def resolve? (w : Workplace) (path : String) : Option String :=
  if path.isEmpty then none
  else if Path.isAbsolute path then some path
  else w.directory.map fun dir => dir ++ "/" ++ path

/-- The file that a path leads to. -/
def file? (w : Workplace) (path : String) : Option SourceFile := (w.resolve? path).bind w.tree.file?

/-- Whether a path leads through a file. -/
def passesFile (w : Workplace) (path : String) : Bool :=
  let cs := path.toList
  (List.range cs.length).any fun n => cs[n]? = some '/' && (w.file? (String.ofList (cs.take n))).isSome

/-- Directories that every system has. -/
def knownDirectories : List (List String) :=
  [["bin"], ["boot"], ["dev"], ["etc"], ["home"], ["lib"], ["media"], ["mnt"], ["opt"], ["proc"], ["root"], ["run"], ["sbin"], ["srv"],
    ["sys"], ["tmp"], ["usr"], ["var"], ["usr", "bin"], ["usr", "lib"], ["usr", "local"], ["usr", "sbin"], ["usr", "share"]]

/-- Whether a path leads to a directory that every system has, or up or down from the working directory to nowhere else. -/
def isKnownDirectory (path : String) : Bool :=
  match Path.components path with
  | .root :: rest => rest.isEmpty || knownDirectories.contains (rest.map Component.text)
  | [] => false
  | inner => inner.all fun c => c = .current || c = .parent

/-- Whether a path leads anywhere. -/
def isThere (w : Workplace) (path : String) : Bool :=
  isKnownDirectory path || (!w.passesFile path && (w.resolve? path).any w.tree.exists?)

/-- Whether a path leads to a directory. -/
def isDirectory (w : Workplace) (path : String) : Bool := w.isThere path && (w.file? path).isNone

/-- Moves to a directory, if it is one. -/
def enter? (w : Workplace) (path : String) : Option Workplace :=
  if w.isDirectory path then some { w with directory := w.resolve? path } else none

end Workplace

/-- A complaint of a program that fails. -/
def ProcessOutput.complaint (text : String) : ProcessOutput := { stderr := Text.encode (text ++ "\n"), ending := .exited 1 }

/-- A time that no process outlives. -/
def ProcessOutput.forever : Nat := 1000000000000000

end CodeAtlas
