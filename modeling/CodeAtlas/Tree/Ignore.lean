import CodeAtlas.Error
import CodeAtlas.Text.Basic
import CodeAtlas.Tree.Glob
/-!
# Ignore rules

The lines of an ignore file. A rule without a slash inside applies at any depth, one with a slash only from the directory of the
file on; a slash at the end restricts it to directories, and an exclamation mark at the start takes paths back in. Of several
rules that fit, the last decides.
-/

namespace CodeAtlas

open CodeAtlas.Text

/-- What rules say about a path. -/
inductive Verdict where
  | ignore
  | keep
deriving Repr, DecidableEq, Inhabited

/-- A rule. -/
structure IgnoreRule where
  glob : Glob
  verdict : Verdict
  onlyDirectories : Bool
deriving Repr, Inhabited

namespace IgnoreRule

/-- A line without the blanks at its end, unless they are escaped. -/
def dropTrailing (line : List Char) : List Char := if endsWith ['\\', ' '] line then line else trimEnd line

/-- A pattern without the slash at its end and a backslash before it; says whether there was one. -/
def splitDirectory (cs : List Char) : List Char × Bool :=
  match before? ['/'] cs with
  | some stem => ((before? ['\\'] stem).getD stem, true)
  | none => (cs, false)

/-- A pattern without a slash applies at any depth. -/
def atAnyDepth (absolute : Bool) (cs : List Char) : List Char :=
  if absolute || cs.contains '/' || startsWith "**/".toList cs || cs = ['*', '*'] then cs else "**/".toList ++ cs

/-- A pattern for all that lies inside a directory does not match the directory itself. -/
def insideOnly (cs : List Char) : List Char := if endsWith "/**".toList cs then cs ++ "/*".toList else cs

/-- A rule from its parts. -/
def build (lenient : Bool) (verdict : Verdict) (absolute : Bool) (pattern : List Char) :
    Except PatternFault IgnoreRule :=
  let (stem, onlyDirectories) := splitDirectory pattern
  (Glob.ofText lenient (insideOnly (atAnyDepth absolute stem))).map fun glob => ⟨glob, verdict, onlyDirectories⟩

/-- The rule of a line that is neither blank nor a comment. -/
def ofPattern (lenient : Bool) (line : List Char) : Except PatternFault IgnoreRule :=
  match line with
  | '\\' :: '!' :: rest => build lenient .ignore false ('!' :: rest)
  | '\\' :: '#' :: rest => build lenient .ignore false ('#' :: rest)
  | '!' :: '/' :: rest => build lenient .keep true rest
  | '!' :: rest => build lenient .keep false rest
  | '/' :: rest => build lenient .ignore true rest
  | _ => build lenient .ignore false line

/-- The rule of a line, unless it is blank, a comment, or makes no sense. -/
def ofLine? (line : List Char) : Option IgnoreRule :=
  if startsWith ['#'] line then none
  else
    let line := dropTrailing line
    if line.isEmpty then none else (ofPattern true line).toOption

/-- The characters that may stand at the start of a file and are no part of its text. -/
def isByteOrderMark (c : Char) : Bool := c.toNat = 0xFEFF

/-- The rules of a file. The file ends for this purpose before the first line that is no text. -/
def ofFile (bytes : List UInt8) : List IgnoreRule :=
  let text := (Text.decodeLines bytes).toList.dropWhile isByteOrderMark
  (lines text).filterMap ofLine?

/-- The rule that leaves out what a pattern matches, or the fault in the pattern. -/
def exclusion (pattern : String) : Outcome IgnoreRule :=
  let cs := dropTrailing ('!' :: pattern.toList)
  match ofPattern false cs with
  | .ok rule => .ok { rule with verdict := .ignore }
  | .error fault => .error (.invalidQuery (.badPattern pattern (String.ofList cs) fault))

/-- Whether a rule applies to a path. -/
def applies (rule : IgnoreRule) (path : String) (isDirectory : Bool) : Bool :=
  (!rule.onlyDirectories || isDirectory) && rule.glob.covers path

/-- What the last rule that applies says. -/
def verdict? (rules : List IgnoreRule) (path : String) (isDirectory : Bool) : Option Verdict :=
  (rules.reverse.find? (·.applies path isDirectory)).map (·.verdict)

end IgnoreRule

end CodeAtlas
