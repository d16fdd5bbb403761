import CodeAtlas.Tree.Basic
import CodeAtlas.Tree.Ignore
/-!
# Files to be indexed

The files of a tree with wanted extensions, by path. Left out are what the exclusions name, then what ignore files say, and then whatever is
hidden, unless an ignore file keeps it; a directory that is left out takes all below it along.
-/

namespace CodeAtlas

namespace Walk

/-- What is never indexed. -/
def defaultExclusions : List String := ["vendor/", "node_modules/", "tmp/", "log/", ".git/", ".repodex/"]

/-- The rules of all exclusions, or the fault in the first that has one. -/
def exclusions (patterns : List String) : Outcome (List IgnoreRule) :=
  (defaultExclusions ++ patterns).mapM IgnoreRule.exclusion

/-- The files of one name in the directories above a place, nearest first and beyond the root of the tree, each with the names from its directory down to the
place. -/
def filesAbove (t : Tree) (place name : List String) : List (List String × SourceFile) :=
  ((Tree.above place).reverse.filterMap fun dir => (t.lookup (dir ++ name)).map (place.drop dir.length, ·)) ++
    t.outer.filterMap fun o => (o.files.lookup name).map (o.down ++ place, ·)

/-- What an ignore file says about a place, seen from the directory of the file. -/
def verdictIn (isDirectory : Bool) (down : List String) (file : SourceFile) : Option Verdict :=
  IgnoreRule.verdict? (IgnoreRule.ofFile file.bytes) (Tree.pathOf down) isDirectory

/-- The ignore files of a directory, those that count most first. -/
def ignoreFiles : List (List String) := [[".ignore"], [".gitignore"], [".git", "info", "exclude"]]

/-- What ignore files say about a place. Of each kind the nearest that says anything decides. -/
def verdict? (t : Tree) (place : List String) (isDirectory : Bool) : Option Verdict :=
  ignoreFiles.findSome? fun name =>
    (filesAbove t place name).findSome? fun (down, file) => verdictIn isDirectory down file

/-- Whether a place is left out by itself. -/
def isLeftOut (t : Tree) (excluded : List IgnoreRule) (place : List String) (isDirectory : Bool) : Bool :=
  match IgnoreRule.verdict? excluded (Tree.pathOf place) isDirectory with
  | some _ => true
  | none =>
    match verdict? t place isDirectory with
    | some .ignore => true
    | some .keep => false
    | none => (place.getLast?.bind fun name => name.toList.head?) = some '.'

/-- The directories of a tree that are left out by themselves. -/
def closedDirectories (t : Tree) (excluded : List IgnoreRule) : List (List String) :=
  t.directories.filter fun dir => isLeftOut t excluded dir true

/-- Whether a file is reached: it is not left out, and no directory above it is closed. -/
def isReached (t : Tree) (excluded : List IgnoreRule) (closed : List (List String)) (file : List String) : Bool :=
  (Tree.above file).all (fun dir => !closed.contains dir) && !isLeftOut t excluded file false

end Walk

/-- The files of a tree to be indexed, by path. -/
def Tree.sources (t : Tree) (extensions exclude : List String) : Outcome (List String) :=
  match Walk.exclusions exclude with
  | .error e => .error e
  | .ok excluded =>
    let closed := Walk.closedDirectories t excluded
    let reached := (t.files.map (·.1)).filter fun file =>
      Path.hasExtension (Tree.pathOf file) extensions && Walk.isReached t excluded closed file
    .ok ((reached.map Tree.pathOf).mergeSort fun a b => a ≤ b)

end CodeAtlas
