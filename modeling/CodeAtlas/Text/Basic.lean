import CodeAtlas.Text.Alphabet
/-!
# Operations on texts

Texts are read as lists of characters. Every operation here recurses on the list, so that what it does to
its input can be proved by induction on it: trimming, cutting at a character, taking a known beginning or ending
off, and the lines and words of a text.
-/

namespace CodeAtlas.Text

/-- A list of texts as one, with `sep` between neighbours. -/
def joinWith (sep : List Char) (parts : List (List Char)) : List Char :=
  sep.intercalate parts

/-- Drops the longest ending whose characters satisfy `p`. -/
def dropEndWhile (p : Char → Bool) (cs : List Char) : List Char :=
  (cs.reverse.dropWhile p).reverse

/-- Drops blanks at the start. -/
def trimStart (cs : List Char) : List Char := cs.dropWhile isBlank

/-- Drops blanks at the end. -/
def trimEnd (cs : List Char) : List Char := dropEndWhile isBlank cs

/-- Drops blanks at both ends. -/
def trim (cs : List Char) : List Char := trimEnd (trimStart cs)

theorem length_dropWhile_le (p : Char → Bool) (cs : List Char) :
    (cs.dropWhile p).length ≤ cs.length :=
  (List.dropWhile_sublist p).length_le

theorem length_dropEndWhile_le (p : Char → Bool) (cs : List Char) :
    (dropEndWhile p cs).length ≤ cs.length := by
  have h := length_dropWhile_le p cs.reverse
  simpa [dropEndWhile] using h

theorem length_trim_le (cs : List Char) : (trim cs).length ≤ cs.length :=
  Nat.le_trans (length_dropEndWhile_le _ _) (length_dropWhile_le _ _)

/-- The parts of a text between the separators; there is one more part than there are separators. -/
def splitOn (sep : Char) : List Char → List (List Char)
  | [] => [[]]
  | c :: cs =>
    if c = sep then [] :: splitOn sep cs
    else
      match splitOn sep cs with
      | [] => [[c]]
      | part :: parts => (c :: part) :: parts

/-- The maximal runs of characters that are no blanks. -/
def words : List Char → List (List Char)
  | [] => []
  | c :: cs =>
    if isBlank c then words cs
    else
      match cs, words cs with
      | [], _ => [[c]]
      | d :: _, rest =>
        if isBlank d then [c] :: rest
        else
          match rest with
          | [] => [[c]]
          | word :: more => (c :: word) :: more

/-- What follows a known beginning. -/
def after? : List Char → List Char → Option (List Char)
  | [], cs => some cs
  | _ :: _, [] => none
  | b :: bs, c :: cs => if b = c then after? bs cs else none

/-- What precedes a known ending. -/
def before? (ending cs : List Char) : Option (List Char) :=
  (after? ending.reverse cs.reverse).map List.reverse

/-- Whether a text begins with another. -/
def startsWith (beginning cs : List Char) : Bool := beginning.isPrefixOf cs

/-- Whether a text ends with another. -/
def endsWith (ending cs : List Char) : Bool := ending.isSuffixOf cs

/-- Whether a text occurs inside another. -/
def occursIn (part : List Char) : List Char → Bool
  | [] => part.isEmpty
  | c :: cs => part.isPrefixOf (c :: cs) || occursIn part cs

/-- The parts before and after the first `mark`. -/
def splitFirst? (mark : Char) : List Char → Option (List Char × List Char)
  | [] => none
  | c :: cs =>
    if c = mark then some ([], cs)
    else (splitFirst? mark cs).map fun (left, right) => (c :: left, right)

/-- The parts before and after the last `mark`. -/
def splitLast? (mark : Char) (cs : List Char) : Option (List Char × List Char) :=
  (splitFirst? mark cs.reverse).map fun (right, left) => (left.reverse, right.reverse)

/-- A line without the carriage return before its line feed. -/
def dropReturn (line : List Char) : List Char :=
  match line.getLast? with
  | some '\r' => line.dropLast
  | _ => line

/-- Ends every part but the last with a line feed; the last part is a line only if it holds something. -/
def linesOf : List (List Char) → List (List Char)
  | [] => []
  | [last] => if last.isEmpty then [] else [last]
  | line :: rest => dropReturn line :: linesOf rest

/-- The lines of a text. A line feed ends a line, together with a carriage return before it. -/
def lines (cs : List Char) : List (List Char) :=
  linesOf (splitOn '\n' cs)

/-- Removes the repetitions of a beginning. -/
def dropAllStart (beginning : List Char) (cs : List Char) : List Char :=
  match after? beginning cs with
  | some rest => if rest.length < cs.length then dropAllStart beginning rest else cs
  | none => cs
termination_by cs.length

/-- A text padded on the left to a width. -/
def padLeft (width : Nat) (cs : List Char) : List Char :=
  List.replicate (width - cs.length) ' ' ++ cs

end CodeAtlas.Text
