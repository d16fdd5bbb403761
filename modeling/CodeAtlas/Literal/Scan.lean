/-!
# Nesting

What a reader has to remember while it passes over source text: the string it is in, if any, and how many
brackets are open. The count may go below zero, since closing brackets need not match. `splitTop` cuts a text
at a separator outside strings and brackets, `openDepth` says how many brackets a line leaves open, and
`closes` follows the first bracket to the one that closes it.
-/

namespace CodeAtlas

/-- The state of a scan: the quote of the open string, whether a backslash has just been read in it, and the
number of open brackets. -/
structure Scan where
  quote : Option Char := none
  escaped : Bool := false
  depth : Int := 0
deriving Repr, DecidableEq, Inhabited

namespace Scan

/-- Quotes. -/
def isQuote (c : Char) : Bool := c == '"' || c == '\''

/-- Opening brackets. -/
def isOpening (c : Char) : Bool := c == '(' || c == '[' || c == '\x7b'

/-- Closing brackets. -/
def isClosing (c : Char) : Bool := c == ')' || c == ']' || c == '\x7d'

/-- Characters with a meaning of their own outside strings. -/
def isStructural (c : Char) : Bool := isQuote c || isOpening c || isClosing c

/-- The state after one more character. -/
def step (s : Scan) (c : Char) : Scan :=
  match s.quote with
  | some q =>
    if s.escaped then { s with escaped := false }
    else if c == '\\' then { s with escaped := true }
    else if c == q then { s with quote := none }
    else s
  | none =>
    if isQuote c then { s with quote := some c }
    else if isOpening c then { s with depth := s.depth + 1 }
    else if isClosing c then { s with depth := s.depth - 1 }
    else s

/-- Whether `c` separates parts in this state. -/
def divides (s : Scan) (sep c : Char) : Bool :=
  s.quote.isNone && s.depth == 0 && c == sep && !isStructural c

/-- Splits from a given state on. -/
def splitFrom (sep : Char) : Scan → List Char → List (List Char)
  | _, [] => [[]]
  | s, c :: cs =>
    if s.divides sep c then [] :: splitFrom sep s cs
    else
      match splitFrom sep (s.step c) cs with
      | [] => [[c]]
      | part :: parts => (c :: part) :: parts

/-- The parts of a text between separators that stand outside strings and brackets. -/
def splitTop (sep : Char) (cs : List Char) : List (List Char) := splitFrom sep {} cs

/-- The depth reached from a given state on. -/
def openDepthFrom : Scan → List Char → Int
  | s, [] => s.depth
  | s, c :: cs =>
    if s.quote.isNone && c == '#' then s.depth else openDepthFrom (s.step c) cs

/-- How many brackets a line leaves open; a comment sign ends it. -/
def openDepth (cs : List Char) : Int := openDepthFrom {} cs

/-- The part of a line before its comment, from a given state on. -/
def codePart : Scan → List Char → List Char
  | _, [] => []
  | s, c :: cs =>
    if s.quote.isNone && c == '#' then [] else c :: codePart (s.step c) cs

/-- The part of a line before its comment. -/
def withoutComment (cs : List Char) : List Char := codePart {} cs

/-- From a given state on, what follows the first bracket that brings the depth back to zero. -/
def closesFrom : Scan → List Char → Option (List Char)
  | _, [] => none
  | s, c :: cs =>
    let next := s.step c
    if s.quote.isNone && isClosing c && next.depth == 0 then some cs else closesFrom next cs

/-- What follows the bracket that closes the first one. -/
def closes (cs : List Char) : Option (List Char) := closesFrom {} cs

/-- The inside of a text that is one bracketed group as a whole. -/
def unwrap? (opening closing : Char) (cs : List Char) : Option (List Char) :=
  match cs with
  | c :: rest =>
    if c = opening && rest.getLast? = some closing && closes cs = some [] then some rest.dropLast else none
  | [] => none

theorem length_splitFrom_le (sep : Char) (s : Scan) (cs : List Char) :
    ∀ part ∈ splitFrom sep s cs, part.length ≤ cs.length := by
  induction cs generalizing s with
  | nil => simp [splitFrom]
  | cons c cs ih =>
    intro part h
    rw [splitFrom] at h
    split at h
    · rcases List.mem_cons.1 h with rfl | h
      · simp
      · exact Nat.le_succ_of_le (ih s part h)
    · have ih := ih (s.step c)
      split at h
      · simp at h
        simp [h]
      · rename_i first rest heq
        rcases List.mem_cons.1 h with rfl | h
        · have := ih first (by simp [heq])
          simpa using this
        · exact Nat.le_succ_of_le (ih part (by simp [heq, h]))

theorem length_unwrap?_lt {opening closing : Char} {cs inner : List Char}
    (h : unwrap? opening closing cs = some inner) : inner.length < cs.length := by
  cases cs with
  | nil => simp [unwrap?] at h
  | cons c rest =>
    simp only [unwrap?] at h
    split at h
    · simp only [Option.some.injEq] at h
      subst h
      simp only [List.length_dropLast, List.length_cons]
      omega
    · simp at h

end Scan

end CodeAtlas
