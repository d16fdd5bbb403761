import CodeAtlas.Extractor.Basic
import CodeAtlas.Indexing.Run
import CodeAtlas.Toml.Parser
import CodeAtlas.Toml.Printer
/-!
# Settings

What a project says about its index: where it is kept, what is indexed, and how. Settings are read from and written to a TOML file; what is absent
there takes its default. Unknown keys are passed over, and a value of the wrong type is an error.
-/

namespace CodeAtlas

/-- How outlines are had. Without a command the built-in reader is used. -/
structure ExtractorSettings where
  command : Option String := none
  args : List String := []
  timeout : Option Nat := none
deriving Repr, DecidableEq, Inhabited

/-- What is indexed. -/
structure IndexingSettings where
  concurrency : Option Nat := none
  extensions : List String := []
  exclude : List String := []
deriving Repr, DecidableEq, Inhabited

/-- The settings of a project. -/
structure Settings where
  database : Option String := none
  root : Option String := none
  schema : Option String := none
  extractor : ExtractorSettings := {}
  indexing : IndexingSettings := {}
deriving Repr, DecidableEq, Inhabited

/-- The extractor that the settings name. -/
def ExtractorSettings.extractor (s : ExtractorSettings) : Extractor :=
  match s.command with
  | some program => .command { program := program, args := s.args, timeout := s.timeout }
  | none => .lines

namespace IndexingSettings

/-- How many files are outlined at once, unless the settings say. -/
def defaultWorkers : Nat := 8

/-- How many files are outlined at once. -/
def workers (s : IndexingSettings) : Nat := max 1 (s.concurrency.getD defaultWorkers)

/-- The extensions of the files that are indexed. -/
def wanted (s : IndexingSettings) : List String := if s.extensions.isEmpty then ["rb"] else s.extensions

end IndexingSettings

namespace Settings

open Toml

/-- The schema file, unless the settings name another. -/
def defaultSchema : String := "db/schema.rb"

/-- The path of the schema file. -/
def schemaPath (s : Settings) : String := s.schema.getD defaultSchema

/-- What a run looks at under these settings. -/
def indexOptions (s : Settings) : IndexOptions :=
  { schema := some s.schemaPath, extensions := s.indexing.wanted, exclude := s.indexing.exclude
    extractor := s.extractor.extractor }

/-- A text, where one is given; the outer result is whether the type is right. -/
def optText? : Option Toml → Option (Option String)
  | none => some none
  | some (.str s) => some (some s)
  | some _ => none

/-- A number that is not negative, where one is given. -/
def optNat? : Option Toml → Option (Option Nat)
  | none => some none
  | some (.int n) => if 0 ≤ n then some (some n.toNat) else none
  | some _ => none

/-- A list of texts, where one is given. -/
def texts? : Option Toml → Option (List String)
  | none => some []
  | some (.arr items) => items.mapM fun
    | .str s => some s
    | _ => none
  | some (.tables _) => none
  | some _ => none

/-- The values of a record under given names; a list gives them in order, and a date is a record that gives none of them. -/
def members? (names : List String) : Option Toml → Option (List (Option Toml))
  | none => some (names.map fun _ => none)
  | some .moment => some (names.map fun _ => none)
  | some (.table _ fields) => some (names.map fun name => fields.lookup name)
  | some (.arr items) => some (names.mapIdx fun i _ => items[i]?)
  | some (.tables items) => some (names.mapIdx fun i _ => items[i]?)
  | some _ => none

/-- Reads how outlines are had. -/
def extractor? (value : Option Toml) : Option ExtractorSettings := do
  match ← members? ["command", "args", "timeout_secs"] value with
  | [command, args, timeout] =>
    return { command := ← optText? command, args := ← texts? args, timeout := ← optNat? timeout }
  | _ => none

/-- Reads what is indexed. -/
def indexing? (value : Option Toml) : Option IndexingSettings := do
  match ← members? ["concurrency", "extensions", "exclude"] value with
  | [concurrency, extensions, exclude] =>
    return { concurrency := ← optNat? concurrency, extensions := ← texts? extensions, exclude := ← texts? exclude }
  | _ => none

/-- The settings of a file. -/
def ofText? (text : String) : Option Settings := do
  let fields ← Toml.parse? text
  return {
    database := ← optText? (fields.lookup "database")
    root := ← optText? (fields.lookup "root")
    schema := ← optText? (fields.lookup "schema")
    extractor := ← extractor? (fields.lookup "extractor")
    indexing := ← indexing? (fields.lookup "indexing") }

/-- The line of a text that may be absent. -/
def textLine (key : String) (value : Option String) : List String :=
  (value.map fun v => assignmentText key (stringText v)).toList

/-- The line of a number that may be absent. -/
def natLine (key : String) (value : Option Nat) : List String :=
  (value.map fun v => assignmentText key (toString v)).toList

/-- The line of a list. -/
def listLine (key : String) (items : List String) : List String := [assignmentText key (stringsText items)]

/-- The file of these settings: single values first, then a table for each part, with a blank line between. -/
def text (s : Settings) : String :=
  let top := textLine "database" s.database ++ textLine "root" s.root ++ textLine "schema" s.schema
  let extractor := tableText "extractor"
    (textLine "command" s.extractor.command ++ listLine "args" s.extractor.args ++
      natLine "timeout_secs" s.extractor.timeout)
  let indexing := tableText "indexing"
    (natLine "concurrency" s.indexing.concurrency ++ listLine "extensions" s.indexing.extensions ++
      listLine "exclude" s.indexing.exclude)
  String.join top ++ (if top.isEmpty then "" else "\n") ++ extractor ++ "\n" ++ indexing

/-- The settings that a new project starts with. -/
def initial : Settings :=
  { database := some ".repodex/index.db", schema := some defaultSchema
    indexing := { concurrency := some IndexingSettings.defaultWorkers, extensions := ["rb"] } }

/-- The settings as a record. -/
def toJson (s : Settings) : Json :=
  .record [
    ("database", .optStr s.database),
    ("root", .optStr s.root),
    ("schema", .optStr s.schema),
    ("extractor", .record [
      ("command", .optStr s.extractor.command),
      ("args", .strings s.extractor.args),
      ("timeout_secs", .ofOption .nat s.extractor.timeout)]),
    ("indexing", .record [
      ("concurrency", .ofOption .nat s.indexing.concurrency),
      ("extensions", .strings s.indexing.extensions),
      ("exclude", .strings s.indexing.exclude)])]

end Settings

namespace IgnoreFile

/-- The line that keeps the index out of version control. -/
def entry : String := ".repodex/"

/-- The text of an ignore file with the line for the index in it; where it is there, the text stays. -/
def withEntry (text : String) : String :=
  let cs := text.toList
  if (Text.lines cs).any fun line => Text.trim line = entry.toList then text
  else
    let ended := if cs.isEmpty || cs.getLast? = some '\n' then text else text ++ "\n"
    ended ++ entry ++ "\n"

end IgnoreFile

end CodeAtlas
