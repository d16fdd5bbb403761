import CodeAtlas.Extractor.Launch
import CodeAtlas.Json.Parser
import CodeAtlas.Outline.Contract
import CodeAtlas.Outline.Reader
/-!
# Extractors

An extractor gives the outline of a source file. One is built in and reads the text line by line; any other is a command that is run with
the path of the file as its last argument and prints the outline as JSON.
-/

namespace CodeAtlas

/-- A file to be outlined. `path` is relative to the root. -/
structure SourceInput where
  path : String
  absolutePath : String
  text : String
deriving Repr, DecidableEq, Inhabited

/-- A command that prints outlines, and how many seconds it may take. -/
structure ExtractorCommand where
  program : String
  args : List String := []
  timeout : Option Nat := none
deriving Repr, DecidableEq, Inhabited

/-- Where outlines come from. -/
inductive Extractor where
  | lines
  | command (command : ExtractorCommand)
deriving Repr, DecidableEq, Inhabited

namespace Extractor

/-- The name of an extractor. -/
def name : Extractor → String
  | .lines => "line-matcher"
  | .command c => c.program

/-- The most characters of an error output that are kept. -/
def maxErrorText : Nat := 4000

/-- Whether a command that took `elapsed` milliseconds exceeded its time. No command is done in no time. -/
def exceeds (elapsed : Nat) (timeout : Option Nat) : Bool :=
  match timeout with
  | some seconds => seconds * 1000 ≤ elapsed
  | none => false

/-- The outline that a command printed, or why there is none. -/
def outlineOf (c : ExtractorCommand) (path : String) (out : ProcessOutput) : Outcome Outline :=
  if exceeds out.elapsed c.timeout then
    .error (.extractor (c.program ++ " timed out after " ++ toString ((c.timeout.getD 0) * 1000) ++ "ms on " ++ path))
  else if out.ending ≠ .exited 0 then
    let text := String.ofList (Text.trim ((Text.decode out.stderr).toList.take maxErrorText))
    .error (.extractor (c.program ++ " exited with " ++ out.ending.describe ++ " on " ++ path ++ ": " ++ text))
  else
    match Outline.ofBytes? out.stdout with
    | some outline => .ok outline
    | none => .error (.parse path ("invalid JSON from " ++ c.program))

/-- The outline of a file of a tree. -/
def extract (t : Tree) (input : SourceInput) : Extractor → Outcome Outline
  | .lines => .ok (Outline.ofSource input.text)
  | .command c =>
    match launch t c.program (c.args ++ [input.absolutePath]) with
    | .ok out => outlineOf c input.path out
    | .error fault => .error (.io fault.describe)

end Extractor

end CodeAtlas
