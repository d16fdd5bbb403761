import CodeAtlas.Projection.Unit
import CodeAtlas.Proofs.Number.Numeral
import CodeAtlas.Proofs.Text.Parts
/-!
# Locations

A location is a path and a line with a colon between them. The line is read back from behind the last colon, if it has
32 bits, and a location belongs to one path only, whatever the path holds.
-/

namespace CodeAtlas

namespace Number

/-- A numeral is read back if it has 32 bits, and not at all if it has more. -/
theorem word32?_toDigits_eq (n : Nat) : word32? (Nat.toDigits 10 n) = (some n).filter (· < UInt32.size) := by
  rw [word32?, natBelow?, nat?_toDigits]
  -- what is left is that no sign precedes the digits
  exact fun rest => toDigits_ne_cons (by decide) n rest

theorem word32?_toDigits {n : Nat} (h : n < UInt32.size) : word32? (Nat.toDigits 10 n) = some n := by
  rw [word32?_toDigits_eq, Option.filter_some_pos (by simpa using h)]

end Number

namespace Projection

/-- A line of a file. -/
def lineOf (path : String) (line : Nat) : String := path ++ ":" ++ toString line

theorem splitLast?_lineOf (path : String) (line : Nat) :
    Text.splitLast? ':' (lineOf path line).toList = some (path.toList, Nat.toDigits 10 line) := by
  have hcolon : ':' ∉ Nat.toDigits 10 line := by
    intro h
    have hdigit := Nat.isDigit_of_mem_toDigits (by decide) (by decide) h
    exact absurd hdigit (by decide)
  have hchars : (lineOf path line).toList = path.toList ++ ':' :: Nat.toDigits 10 line := by
    simp [lineOf, String.toList_append, Nat.toList_repr]
  rw [hchars, Text.splitLast?_append hcolon]

/-- The line of a location is read back. -/
theorem locationLine?_lineOf (path : String) {line : Nat} (h : line < UInt32.size) :
    locationLine? (lineOf path line) = some line := by
  rw [locationLine?, splitLast?_lineOf, Option.bind_some]
  exact Number.word32?_toDigits h

/-- No other line is read from a location. -/
theorem eq_of_locationLine?_lineOf {path : String} {line found : Nat}
    (h : locationLine? (lineOf path line) = some found) : found = line := by
  rw [locationLine?, splitLast?_lineOf, Option.bind_some] at h
  have hread := (Number.word32?_toDigits_eq line).symm.trans h
  exact (Option.some.inj (Option.filter_eq_some_iff.1 hread).1).symm

/-- A location belongs to one path. -/
theorem path_eq_of_lineOf_eq {p q : String} {m n : Nat} (h : lineOf p m = lineOf q n) : p = q := by
  have hsplit := splitLast?_lineOf p m
  rw [h, splitLast?_lineOf q n, Option.some.injEq, Prod.mk.injEq] at hsplit
  exact String.toList_inj.1 hsplit.1.symm

end Projection

end CodeAtlas
