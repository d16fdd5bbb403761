import CodeAtlas.CommandLine.Run
import CodeAtlas.Json.Parser
import CodeAtlas.Json.Printer
import CodeAtlas.Store.Snapshot
/-!
# The program

The command line in the world of files: the tree below the working directory and the index that a request speaks of are read, the request is run,
and what it changed is written back. All that is decided is decided by `Request.run`.
-/

namespace CodeAtlas.CommandLine

/-- Reads a file, or all files below a directory, into a tree. -/
partial def readEntry (names : List String) (t : Tree) (entry : IO.FS.DirEntry) : IO Tree := do
  let here := names ++ [entry.fileName]
  let info ← entry.path.metadata
  match info.type with
  | .dir =>
    let entries ← entry.path.readDir
    entries.foldlM (readEntry here) { t with directories := t.directories ++ [here] }
  | .file =>
    let bytes ← IO.FS.readBinFile entry.path
    return { t with files := t.files ++ [(here, ⟨bytes.toList, info.modified.sec⟩)] }
  | _ => return t

/-- The time in seconds: when the entry of the running process was made. -/
def clock : IO Int := do
  let here ← IO.currentDir
  let info ← (here / "/proc/self").metadata
  return info.modified.sec

/-- The working directory with all that is below it. -/
def readWorld : IO World := do
  let root ← IO.currentDir
  let entries ← root.readDir
  let tree ← entries.foldlM (readEntry []) { root := root.toString, isWorkingDirectory := true }
  return { tree := tree, now := ← clock }

/-- The place of the index that a request speaks of. -/
def indexPath? (w : World) (r : Request) : Option String := (Context.resolve w r).toOption.map (·.database)

/-- Keeps the index of a file, if the file has one. -/
def loadIndex (w : World) (path : String) : World :=
  let stored := (w.tree.file? path).bind fun f => (Json.parse? f.text).bind Store.ofSnapshot?
  match stored with
  | some s => w.keepIndex path s
  | none => w

/-- Makes the directories above a path. -/
def makeParent (path : String) : IO Unit := do
  let here ← IO.currentDir
  match (here / path).parent with
  | some directory => IO.FS.createDirAll directory
  | none => return ()

/-- Writes an index to its file. -/
def saveIndex (w : World) (path : String) : IO Unit :=
  match w.index? path with
  | none => return ()
  | some s => do
    makeParent path
    IO.FS.writeFile path s.toSnapshot.compact

/-- Writes the files of a tree that differ from those it had before. -/
def saveFiles (before after : Tree) : IO Unit :=
  after.files.forM fun (names, f) => do
    if before.lookup names ≠ some f then
      IO.FS.writeBinFile (Path.join after.root (Tree.pathOf names)) ⟨f.bytes.toArray⟩

/-- Prints what a command printed, and why it failed. -/
def printCompletion (c : Completion) : IO UInt32 := do
  c.output.out.forM IO.println
  c.output.err.forM IO.eprintln
  match c.failure with
  | none => return 0
  | some failure =>
    IO.eprintln ("Error: " ++ failure.message)
    return 1

/-- Runs a request in the working directory. -/
def runHere (r : Request) : IO UInt32 := do
  let w ← readWorld
  let path? := indexPath? w r
  let w := (path?.map (loadIndex w)).getD w
  let c := r.run w
  saveFiles w.tree c.world.tree
  path?.forM (saveIndex c.world)
  printCompletion c

end CodeAtlas.CommandLine

/-- The command line of the index. -/
def main (args : List String) : IO UInt32 :=
  match CodeAtlas.CommandLine.Request.ofArguments args with
  | .ok r => CodeAtlas.CommandLine.runHere r
  | .error .version => do
    IO.println CodeAtlas.CommandLine.versionText
    return 0
  | .error .help => do
    IO.println CodeAtlas.CommandLine.versionText
    return 0
  | .error .usage => do
    IO.eprintln "error: the arguments make no sense"
    return 2
