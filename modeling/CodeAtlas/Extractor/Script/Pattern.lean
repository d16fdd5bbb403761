import CodeAtlas.Text.Basic
/-!
# Patterns of scripts

A pattern stands for texts: a star for any characters, a question mark for one, and brackets for one of those between them. Characters that
are quoted stand for themselves.
-/

namespace CodeAtlas

namespace Script

namespace Pattern

/-- A part of a pattern. -/
inductive Part where
  | char (c : Char)
  | one
  | many
  | set (negated : Bool) (ranges : List (Char × Char))
deriving Repr, DecidableEq, Inhabited

/-- The ranges between brackets. -/
def ranges : List Char → List (Char × Char)
  | a :: '-' :: b :: rest => (a, b) :: ranges rest
  | a :: rest => (a, a) :: ranges rest
  | [] => []

/-- The set that a bracket opens, and how many characters it takes. A bracket that closes at once stands for itself. -/
def setAt? (cs : List (Char × Bool)) : Option (Part × Nat) :=
  let negated := cs.head?.any fun c => (c.1 = '!' || c.1 = '^') && !c.2
  let inner := if negated then cs.drop 1 else cs
  let length := ((inner.drop 1).takeWhile fun c => c ≠ (']', false)).length + 1
  if inner.length ≤ length then none
  else some (.set negated (ranges ((inner.take length).map (·.1))), length + 1 + if negated then 1 else 0)

/-- The parts of a pattern, whose characters come with whether they are quoted. `fuel` bounds the parts. -/
def ofChars : Nat → List (Char × Bool) → List Part
  | 0, _ => []
  | _, [] => []
  | fuel + 1, (c, quoted) :: rest =>
    if quoted then .char c :: ofChars fuel rest
    else if c = '*' then .many :: ofChars fuel rest
    else if c = '?' then .one :: ofChars fuel rest
    else if c = '[' then
      match setAt? rest with
      | some (set, n) => set :: ofChars fuel (rest.drop n)
      | none => .char c :: ofChars fuel rest
    else .char c :: ofChars fuel rest

/-- Whether a part stands for a character. -/
def Part.covers (c : Char) : Part → Bool
  | .char d => c = d
  | .one => true
  | .many => true
  | .set negated ranges => (ranges.any fun r => r.1 ≤ c && c ≤ r.2) != negated

/-- What is left of a text and each of its ends. -/
def tails : List Char → List (List Char)
  | [] => [[]]
  | c :: cs => (c :: cs) :: tails cs

/-- Whether a pattern stands for a text. -/
def fits : List Part → List Char → Bool
  | [], cs => cs.isEmpty
  | .many :: rest, cs => (tails cs).any fun tail => fits rest tail
  | part :: rest, c :: cs => part.covers c && fits rest cs
  | _ :: _, [] => false

/-- A text without the shortest or the longest beginning that a pattern stands for. -/
def cutStart (longest : Bool) (pattern : List Part) (cs : List Char) : List Char :=
  let lengths := List.range (cs.length + 1)
  match (if longest then lengths.reverse else lengths).find? fun n => fits pattern (cs.take n) with
  | some n => cs.drop n
  | none => cs

/-- A text without the shortest or the longest end that a pattern stands for. -/
def cutEnd (longest : Bool) (pattern : List Part) (cs : List Char) : List Char :=
  let lengths := List.range (cs.length + 1)
  match (if longest then lengths else lengths.reverse).find? fun n => fits pattern (cs.drop n) with
  | some n => cs.take n
  | none => cs

end Pattern

end Script

end CodeAtlas
