import CodeAtlas.CommandLine.Answer
import CodeAtlas.CommandLine.Request
import CodeAtlas.Settings
/-!
# Running a command

A command is run in a world: the files below the working directory, the indexes that have been kept, and the clock. It changes the world and prints an
answer, or fails. A failure keeps what was printed and changed before it.
-/

namespace CodeAtlas.CommandLine

/-- The files below the working directory, the indexes by their places, and the time in seconds. -/
structure World where
  tree : Tree
  indexes : List (List String × Store) := []
  now : Int := 0
deriving Inhabited

/-- Why a command failed. -/
inductive Failure where
  | refused (error : Error)
  /-- The settings file cannot be read as settings. -/
  | settings
  | system (message : String)
  | noRoot (root cause : String)
  | noIndex (database : String)
  | noTarget
  | settingsExist (path : String)
deriving Repr, DecidableEq

/-- The failure in words. -/
def Failure.message : Failure → String
  | .refused e => e.message
  | .settings => "invalid settings"
  | .system message => message
  | .noRoot root cause => "cannot open root " ++ root ++ "\n\nCaused by:\n    " ++ cause
  | .noIndex database => "no index at " ++ database ++ " (run `repodex index` first)"
  | .noTarget => "give a file path or --symbol"
  | .settingsExist path => "config already exists at " ++ path ++ " (use --force to overwrite)"

/-- What a command left: the world, what it printed, and why it failed, if it did. -/
structure Completion where
  world : World
  output : Output := {}
  failure : Option Failure := none
deriving Inhabited

/-- What the operating system says about a missing file. -/
def noSuchFile : String := "No such file or directory (os error 2)"

/-- What the operating system says about a directory that was taken for a file. -/
def isADirectory : String := "Is a directory (os error 21)"

/-- What the operating system says about a file that was taken for a directory. -/
def notADirectory : String := "Not a directory (os error 20)"

/-- What the operating system says about a directory that is to be made where a file is. -/
def fileExists : String := "File exists (os error 17)"

namespace World

/-- Why a path that leads nowhere does not: it goes through a file, or something on it is missing. -/
def whyMissing (w : World) (path : String) : String :=
  let letters := path.toList
  if (List.range letters.length).any fun n => letters[n]? = some '/' && w.tree.isFile (String.ofList (letters.take n)) then
    notADirectory
  else noSuchFile

/-- The names on the way to a path, with steps up carried out. -/
def place (w : World) (path : String) : List String :=
  (Path.components (Path.join w.tree.root path)).foldl (fun names c =>
    match c with
    | .root => []
    | .current => names
    | .parent => names.dropLast
    | .normal name => names ++ [name]) []

/-- The index that is kept at a path. -/
def index? (w : World) (path : String) : Option Store := w.indexes.lookup (w.place path)

/-- How many names lead to the root of the tree. -/
def rootDepth (w : World) : Nat := (Path.components w.tree.root).length - 1

/-- Whether a path leads below the root of the tree. -/
def isInside (w : World) (path : String) : Bool := (w.place w.tree.root).isPrefixOf (w.place path)

/-- An index seen as a file: not empty, and no text. -/
def indexBytes : List UInt8 := [0xFF]

/-- Keeps an index at a path, where there is a file from now on. -/
def keepIndex (w : World) (path : String) (s : Store) : World :=
  let place := w.place path
  { w with
    indexes := (place, s) :: w.indexes.filter (·.1 ≠ place)
    tree := if w.isInside path then w.tree.write (place.drop w.rootDepth) ⟨indexBytes, w.now⟩ else w.tree }

/-- Writes a file, if there is a directory for it. An index that was kept there is lost. -/
def writeText (w : World) (path text : String) : Except Failure World :=
  match w.tree.locate? path with
  | none => .error (.system (w.whyMissing path))
  | some names =>
    if w.tree.isDirectory names then .error (.system isADirectory)
    else
      .ok { w with
        tree := w.tree.write names ⟨Text.encode text, w.now⟩
        indexes := w.indexes.filter (·.1 ≠ w.place w.tree.root ++ names) }

/-- The text of a file, if there is one. -/
def readText? (w : World) (path : String) : Except Failure (Option String) :=
  match w.tree.file? path with
  | some f =>
    match Text.decodeExact? f.bytes with
    | some text => .ok (some text)
    | none => .error (.system "stream did not contain valid UTF-8")
  | none => if w.tree.exists? path then .error (.system isADirectory) else .ok none

/-- Deletes a file or an index, or all below a directory. -/
def delete (w : World) (path : String) : World :=
  let names := w.place path
  { w with
    tree := { w.tree with files := w.tree.files.filter fun (file, _) => !(names.drop w.rootDepth).isPrefixOf file }
    indexes := w.indexes.filter fun (place, _) => !names.isPrefixOf place }

/-- Puts a file in the place of what was there, with the directories it needs. -/
def replace (w : World) (path : String) (f : SourceFile) : World :=
  let w := w.delete path
  { w with tree := w.tree.write ((w.place path).drop w.rootDepth) f }

/-- Makes the directory that an index is to lie in. A file cannot hold it, and cannot be on the way to it. -/
def makeRoom (w : World) (database : String) : Except Failure World :=
  let dir := Path.parent database
  if dir.isEmpty then .ok w
  else if w.tree.isFile dir then .error (.refused (.io fileExists))
  else if w.tree.exists? dir then .ok w
  else if w.whyMissing dir = notADirectory then .error (.system notADirectory)
  else if w.isInside database then
    .ok { w with tree := w.tree.addDirectories ((w.place database).drop w.rootDepth) }
  else .ok w

end World

/-- The settings file, unless another is named. -/
def defaultSettings : String := "repodex.toml"

/-- What a command works with: the settings, the tree below the root, and the path of the index. -/
structure Context where
  settings : Settings
  tree : Tree
  database : String

namespace Context

/-- The settings of a file; without the file all take their defaults. -/
def loadSettings (w : World) (path : String) : Except Failure Settings :=
  match w.readText? path with
  | .error e => .error e
  | .ok none => .ok {}
  | .ok (some text) =>
    match Settings.ofText? text with
    | some s => .ok s
    | none => .error .settings

/-- The tree below a directory. -/
def openRoot (w : World) (root : String) : Except Failure Tree :=
  match w.tree.locate? root with
  | none => .error (.noRoot root (w.whyMissing root))
  | some names =>
    if w.tree.isDirectory names || (w.tree.lookup names).isSome then .ok (w.tree.below names)
    else .error (.noRoot root noSuchFile)

/-- What options and settings give together; options count more. -/
def resolve (w : World) (r : Request) : Except Failure Context := do
  let settings ← loadSettings w (r.config.getD defaultSettings)
  let tree ← openRoot w ((r.root.or settings.root).getD ".")
  let kept := (settings.database.map (Path.join tree.root)).getD (Path.join tree.root ".repodex/index.db")
  return { settings := settings, tree := tree, database := r.database.getD kept }

/-- The index, which has to be there. An empty file is an empty index, and a directory cannot be opened. -/
def openIndex (w : World) (c : Context) : Except Failure Store :=
  match w.index? c.database with
  | some s => .ok s
  | none =>
    match w.tree.file? c.database with
    | some f => if f.bytes.isEmpty then .ok {} else .error (.refused (.storage .notAnIndex))
    | none =>
      if w.tree.exists? c.database then .error (.refused (.storage (.cannotOpen c.database)))
      else .error (.noIndex c.database)

end Context

/-- The lines of a file that a text names: `path`, `path:line` or `path:first-last`. -/
def parseLocation (target : String) : String × Option Nat × Option Nat :=
  match Text.splitLast? ':' target.toList with
  | none => (target, none, none)
  | some (path, range) =>
    match Text.splitFirst? '-' range with
    | some (first, last) =>
      match Number.word32? first, Number.word32? last with
      | some first, some last => (String.ofList path, some first, some last)
      | _, _ => (target, none, none)
    | none =>
      match Number.word32? range with
      | some first => (String.ofList path, some first, none)
      | none => (target, none, none)

/-- An answer as a record or for people. -/
def answer (json : Bool) (record : Json) (shown : Output) : Output :=
  if json then Output.line record.pretty else shown

/-- A list of records. -/
def list {α : Type} (encode : α → Json) (items : List α) : Json := .arr (items.map encode)

/-- Takes a refusal for a failure. -/
def check {α : Type} : Outcome α → Except Failure α
  | .ok a => .ok a
  | .error e => .error (.refused e)

/-- Where a snippet is. -/
def findSnippet (s : Store) (t : Tree) (target symbol file : Option String) (start stop : Option Nat) :
    Except Failure Snippet :=
  match target, symbol with
  | _, some name => check (s.symbolSnippet t name file)
  | some target, none =>
    let (path, first, last) := parseLocation target
    check (t.snippet path ((start.or first).getD 1) (stop.or last))
  | none, none => .error .noTarget

/-- The answer to a query. Names are read before the index is opened. -/
def query (w : World) (c : Context) (json : Bool) (command : Command) : Except Failure Output :=
  match command with
  | .search text categories limit => do
    let categories ← check (categories.mapM Category.ofInput)
    let s ← c.openIndex w
    let hits ← check (s.search text categories limit)
    return answer json (list SearchHit.toJson hits) (Answer.search text hits)
  | .snippet target symbol file start stop => do
    let s ← c.openIndex w
    let snippet ← findSnippet s c.tree target symbol file start stop
    return answer json snippet.toJson (Answer.snippet snippet)
  | .tests path => do
    let _ ← c.openIndex w
    let found ← check (c.tree.testsOf path)
    return answer json (.strings found) (Answer.tests path found)
  | .summary path => do
    let s ← c.openIndex w
    let summary ← check (s.fileSummary path)
    return answer json summary.toJson (Answer.summary summary)
  | .similar path limit least => do
    let s ← c.openIndex w
    let found ← check (s.similarFiles path limit least.toFloat)
    return answer json (list SimilarFile.toJson found) (Answer.similar path least found)
  | .tables => do
    let s ← c.openIndex w
    let found := s.schema.summaries
    return answer json (list Schema.TableSummary.toJson found) (Answer.tables found)
  | .table name => do
    let s ← c.openIndex w
    let description ← check (s.describeTable name)
    return answer json description.toJson (Answer.table description)
  | .associations table => do
    let s ← c.openIndex w
    let found ← check (s.suggestAssociations table)
    return answer json (list Association.toJson found) (Answer.associations table found)
  | .validations table => do
    let s ← c.openIndex w
    let found ← check (s.suggestValidations table)
    return answer json (list Validation.toJson found) (Answer.validations table found)
  | .nodes filter kind limit => do
    let kind ← check (kind.mapM NodeKind.ofInput)
    let s ← c.openIndex w
    let found ← check (s.graph.findNodes kind filter limit)
    return answer json (list Node.toJson found) (Answer.nodes found)
  | .neighbors node edges direction depth => do
    let kinds ← check (edges.mapM EdgeKind.ofInput)
    let direction ← check (Direction.ofInput direction)
    let s ← c.openIndex w
    let hood ← check (s.graph.neighborsOf node kinds direction depth)
    return answer json hood.toJson (Answer.neighborhood hood)
  | .explain node => do
    let s ← c.openIndex w
    let explanation ← check (s.explain node)
    return answer json explanation.toJson (Answer.explanation explanation)
  | .status => do
    let s ← c.openIndex w
    let status := s.status c.tree.root
    return answer json status.toJson (Answer.indexStatus c.database status)
  | .init _ => return {}
  | .index _ _ => return {}

/-- A path from the working directory; where it leads somewhere, in its plainest form. -/
def absolutePath (w : World) (path : String) : String :=
  let joined := Path.join w.tree.root path
  match w.tree.locate? joined with
  | some names => if w.tree.exists? joined then (w.tree.below names).root else joined
  | none => joined

/-- The index to bring up to date, which is a new one where there is none, and the world with room for it. -/
def openOrCreate (w : World) (c : Context) : Except Failure (World × Store) := do
  let w ← w.makeRoom c.database
  match c.openIndex w with
  | .ok s => return (w, s)
  | .error (.noIndex _) => return (w, {})
  | .error e => throw e

/-- Brings an index up to date. The index is there from now on, also if the run fails. -/
def runIndex (w : World) (c : Context) (json full : Bool) (paths : List String) : Completion :=
  match openOrCreate w c with
  | .error e => { world := w, failure := some e }
  | .ok (w, store) =>
    let intro := Output.onlyIf (!json)
      (Output.header .rocket ("Indexing " ++ c.tree.root) ++ Output.status .database "Database" c.database)
    let (store, result) :=
      if paths.isEmpty then
        Indexing.run c.tree c.settings.indexOptions w.now (if full then .full else .incremental) store
      else
        let r := Indexing.indexPaths c.tree c.settings.indexOptions w.now (paths.map (absolutePath w)) store
        (r.desk.store, .ok r)
    let world := w.keepIndex c.database store
    match result with
    | .ok r => { world := world, output := intro ++ answer json r.report.toJson (Answer.report r.report) }
    | .error e => { world := world, output := intro, failure := some (.refused e) }

/-- Writes initial settings, and keeps the index out of version control. -/
def runInit (w : World) (r : Request) (force : Bool) : Completion :=
  let path := r.config.getD defaultSettings
  let root := r.root.getD "."
  let ignore := Path.join root ".gitignore"
  if w.tree.exists? path && !force then { world := w, failure := some (.settingsExist path) }
  else
    match w.writeText path Settings.initial.text with
    | .error e => { world := w, failure := some e }
    | .ok w =>
      match w.readText? ignore with
      | .error e => { world := w, failure := some e }
      | .ok text =>
        match w.writeText ignore (IgnoreFile.withEntry (text.getD "")) with
        | .error e => { world := w, failure := some e }
        | .ok w =>
          let record := Json.record [("config", .str path), ("database", .str (Path.join root ".repodex/index.db"))]
          { world := w
            output := answer r.json record
              (Output.success ("Wrote " ++ path) ++ Output.info "Next" "repodex index") }

/-- Runs a request. -/
def Request.run (r : Request) (w : World) : Completion :=
  match r.command with
  | .init force => runInit w r force
  | command =>
    match Context.resolve w r with
    | .error e => { world := w, failure := some e }
    | .ok c =>
      match command with
      | .index full paths => runIndex w c r.json full paths
      | command =>
        match query w c r.json command with
        | .ok output => { world := w, output := output }
        | .error e => { world := w, failure := some e }

end CodeAtlas.CommandLine
