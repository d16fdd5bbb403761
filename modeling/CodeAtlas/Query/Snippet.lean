import CodeAtlas.Catalog.Basic
import CodeAtlas.Store
import CodeAtlas.Tree.Basic
/-!
# Snippets

Numbered lines of a source file, by range or by the symbol they define. A snippet has a bounded number of lines and says whether it was cut
short; the rest is had by asking again from the next line on.
-/

namespace CodeAtlas

/-- Lines of a file. `symbol` is what was asked for by name, `alternatives` its other definitions. -/
structure Snippet where
  path : String
  startLine : Nat
  endLine : Nat
  totalLines : Nat
  truncated : Bool
  text : String
  symbol : Option Symbol := none
  alternatives : List String := []
deriving Repr, DecidableEq, Inhabited

namespace Snippet

/-- The snippet as a record. -/
def toJson (s : Snippet) : Json :=
  .record [
    ("path", .str s.path),
    ("start_line", .nat s.startLine),
    ("end_line", .nat s.endLine),
    ("total_lines", .nat s.totalLines),
    ("truncated", .bool s.truncated),
    ("text", .str s.text),
    ("symbol", .ofOption Symbol.toJson s.symbol),
    ("alternatives", .strings s.alternatives)]

/-- The most lines of a snippet. -/
def maxLines : Nat := 400

/-- A line with its number before it. -/
def numbered (number : Nat) (line : List Char) : List Char :=
  Text.padLeft 5 (Number.Binary.natText number) ++ ' ' :: ' ' :: line

/-- Lines with numbers from `first` on. -/
def numberedFrom : Nat → List (List Char) → List (List Char)
  | _, [] => []
  | first, line :: rest => numbered first line :: numberedFrom (first + 1) rest

/-- The lines from `first` to `last`, counted from one. -/
def slice (first last : Nat) (lines : List (List Char)) : List (List Char) :=
  (lines.drop (first - 1)).take (last + 1 - first)

/-- The snippet of a text from line `start` to line `stop`, or to the end of the text. -/
def ofLines (path : String) (lines : List (List Char)) (start : Nat) (stop : Option Nat) : Outcome Snippet :=
  let total := lines.length
  let first := max start 1
  if total = 0 then
    .ok { path := path, startLine := 1, endLine := 0, totalLines := 0, truncated := false, text := "" }
  else if total < first then .error (.invalidQuery (.pastEnd first path total))
  else
    let wanted := min (stop.getD total) total
    if wanted < first then .error (.invalidQuery (.emptyRange first wanted))
    else
      let last := min wanted (first + maxLines - 1)
      let text := Text.joinWith ['\n'] (numberedFrom first (slice first last lines))
      .ok { path := path, startLine := first, endLine := last, totalLines := total, truncated := last < wanted
            text := String.ofList text }

end Snippet

/-- The text of a file of the tree. -/
def Tree.readText (t : Tree) (path : String) : Outcome String :=
  match Path.normalize path with
  | .error e => .error e
  | .ok inner =>
    match t.file? inner with
    | some f => .ok f.text
    | none => .error (.notFound (.file inner))

/-- The lines of a file from `start` to `stop`, or to its end. -/
def Tree.snippet (t : Tree) (path : String) (start : Nat) (stop : Option Nat) : Outcome Snippet :=
  match t.readText path with
  | .error e => .error e
  | .ok text => Snippet.ofLines path (Text.lines text.toList) start stop

namespace Query

/-- A name of the form `Owner#name`, or a name alone. -/
def ownedName (name : String) : Option String × String :=
  match Text.splitFirst? '#' name.toList with
  | some (owner, bare) => (some (String.ofList owner), String.ofList bare)
  | none => (none, name)

/-- The definitions of a name by path and line, those of one owner or in one file where these are given. -/
def definitions (c : Catalog) (name : String) (path : Option String) : List Symbol :=
  let (owner, bare) := ownedName name
  (c.findSymbols bare none).filter fun s =>
    path.all (s.path = ·) && owner.all (s.enclosing = some ·)

end Query

/-- The lines of the first definition of a name; the other definitions are listed as `path:line`. -/
def Store.symbolSnippet (s : Store) (t : Tree) (name : String) (path : Option String) : Outcome Snippet :=
  match Query.definitions s.catalog name path with
  | [] => .error (.notFound (.symbol name))
  | symbol :: others =>
    match t.snippet symbol.path symbol.startLine (some symbol.endLine) with
    | .error e => .error e
    | .ok snippet =>
      .ok { snippet with
            symbol := some symbol
            alternatives := others.map fun o => o.path ++ ":" ++ toString o.startLine }

end CodeAtlas
