/-!
# Output

What a command prints, as lines, to its two outputs. Lines for people start with a picture that says what they are about.
-/

namespace CodeAtlas.CommandLine

/-- Lines for the one output and the other. -/
structure Output where
  out : List String := []
  err : List String := []
deriving Repr, DecidableEq, Inhabited

/-- The pictures before lines. -/
inductive Icon where
  | rocket
  | search
  | check
  | cross
  | warn
  | info
  | stats
  | link
  | file
  | database
  | table
  | test
  | clock
  | node
  | hint
deriving Repr, DecidableEq, Inhabited

/-- The picture itself. -/
def Icon.text : Icon → String
  | .rocket => "🚀"
  | .search => "🔍"
  | .check => "✅"
  | .cross => "❌"
  | .warn => "⚠️"
  | .info => "ℹ️"
  | .stats => "📊"
  | .link => "🔗"
  | .file => "📄"
  | .database => "🗄️"
  | .table => "📋"
  | .test => "🧪"
  | .clock => "⏱️"
  | .node => "🔵"
  | .hint => "💡"

namespace Output

/-- One output after another. -/
def append (a b : Output) : Output := { out := a.out ++ b.out, err := a.err ++ b.err }

instance : Append Output := ⟨append⟩

/-- Outputs one after another. -/
def concat (parts : List Output) : Output := parts.foldl append {}

/-- A line. -/
def line (text : String) : Output := { out := [text] }

/-- A line with a picture before it. -/
def header (icon : Icon) (text : String) : Output := line (icon.text ++ " " ++ text)

/-- A line with a picture, a label and a value. -/
def status (icon : Icon) (label value : String) : Output := header icon (label ++ ": " ++ value)

/-- A piece of information. -/
def info (label value : String) : Output := status .info label value

/-- Something went well. -/
def success (text : String) : Output := header .check text

/-- Something went wrong. -/
def error (text : String) : Output := { err := [Icon.text .cross ++ " " ++ text] }

/-- Something to be told. -/
def warn (text : String) : Output := { err := [Icon.text .warn ++ " " ++ text] }

/-- The title of a section, after an empty line. -/
def heading (title : String) : Output := { out := ["", "━" ++ title ++ "━"] }

/-- A label and a value in a section. -/
def row (label value : String) : Output := line ("  " ++ label ++ " " ++ value)

/-- An output that is there only under a condition. -/
def onlyIf (condition : Bool) (o : Output) : Output := if condition then o else {}

/-- An output for a value that may be absent. -/
def whenSome {α : Type} (value : Option α) (display : α → Output) : Output :=
  match value with
  | some a => display a
  | none => {}

end Output

end CodeAtlas.CommandLine
