import CodeAtlas.Text.Basic
import CodeAtlas.Literal.Scan
/-!
# Statements of a schema file

A statement may go over several lines: it goes on while brackets are open or a line ends in a comma, but never over more
than `maxJoined` lines, so that one bracket too many cannot swallow the rest of the file. Comments and blank lines do not
count.
-/

namespace CodeAtlas.Schema

open CodeAtlas.Text

/-- The most lines of one statement. -/
def maxJoined : Nat := 64

/-- A line that holds something: its number, and its text without comment and outer blanks. -/
structure CodeLine where
  number : Nat
  text : List Char
deriving Repr, DecidableEq

/-- Numbers lines from a given number on and keeps those that hold something. -/
def codeLinesFrom : Nat → List (List Char) → List CodeLine
  | _, [] => []
  | n, line :: rest =>
    let text := trim (Scan.withoutComment line)
    if text.isEmpty then codeLinesFrom (n + 1) rest else ⟨n, text⟩ :: codeLinesFrom (n + 1) rest

/-- The lines of a source that hold something. -/
def codeLines (source : List Char) : List CodeLine := codeLinesFrom 1 (lines source)

/-- Whether a statement goes on after a line, where `depth` brackets are open and it has `joined` lines so far. -/
def continues (depth : Int) (joined : Nat) (line : CodeLine) : Bool :=
  (0 < depth || line.text.getLast? == some ',') && joined < maxJoined

/-- The lines in groups, where `pending` is the group begun and `depth` its open brackets. -/
def groupsFrom : List CodeLine → Int → List CodeLine → List (List CodeLine)
  | pending, _, [] => if pending.isEmpty then [] else [pending]
  | pending, depth, line :: rest =>
    let group := pending ++ [line]
    let depth := depth + Scan.openDepth line.text
    if continues depth group.length line then groupsFrom group depth rest else group :: groupsFrom [] 0 rest

/-- A statement: the number of its first line, and its lines joined by blanks. -/
structure Statement where
  line : Nat
  text : List Char
deriving Repr, DecidableEq

/-- The statement of a group of lines. -/
def Statement.ofGroup (group : List CodeLine) : Statement :=
  { line := (group.head?.map (·.number)).getD 0, text := joinWith [' '] (group.map (·.text)) }

/-- The statements of a source. -/
def statements (source : String) : List Statement :=
  (groupsFrom [] 0 (codeLines source.toList)).map Statement.ofGroup

/-- The word a statement starts with, and what follows it. -/
def splitHead (cs : List Char) : List Char × List Char :=
  let inHead := fun c => !(isBlank c || c == '(')
  (cs.takeWhile inHead, cs.dropWhile inHead)

/-- The text of a call without the block it opens, whether it opens one, and the name of the block's variable. -/
structure CallText where
  arguments : List Char
  opensBlock : Bool
  variableName : Option (List Char)
deriving Repr, DecidableEq

/-- The text before a block's variable, and the variable. -/
def splitVariable (cs : List Char) : List Char × Option (List Char) :=
  match before? ['|'] cs with
  | some inner =>
    match splitLast? '|' inner with
    | some (body, name) => (trimEnd body, some (trim name))
    | none => (cs, none)
  | none => (cs, none)

/-- Takes a trailing `do`, with or without a variable, off a call. -/
def splitBlock (cs : List Char) : CallText :=
  let trimmed := trimEnd cs
  let (body, name) := splitVariable trimmed
  if body = ['d', 'o'] then ⟨[], true, name⟩
  else
    match before? ['d', 'o'] body with
    | some before =>
      if before.getLast?.any fun c => isBlank c || c == ')' then ⟨trimEnd before, true, name⟩
      else ⟨trimmed, false, none⟩
    | none => ⟨trimmed, false, none⟩

end CodeAtlas.Schema
