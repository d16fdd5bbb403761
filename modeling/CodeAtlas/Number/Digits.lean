import CodeAtlas.Text.Basic
/-!
# Whole numbers in text

A numeral is a non-empty run of ASCII digits, with an optional sign where the type has one. Numbers outside
the width of their type are refused, never wrapped.
-/

namespace CodeAtlas.Number

/-- The value of a run of digits. -/
def digitsValue (cs : List Char) : Nat :=
  cs.foldl (fun n c => 10 * n + (c.toNat - '0'.toNat)) 0

/-- A non-empty run of digits. -/
def nat? (cs : List Char) : Option Nat :=
  if cs.isEmpty || !cs.all Char.isDigit then none else some (digitsValue cs)

/-- A numeral below `bound`; a plus sign may precede it. -/
def natBelow? (bound : Nat) (cs : List Char) : Option Nat :=
  let digits := match cs with
    | '+' :: rest => rest
    | _ => cs
  (nat? digits).filter (· < bound)

/-- A numeral of 32 bits without sign. -/
def word32? (cs : List Char) : Option Nat := natBelow? UInt32.size cs

/-- A numeral of 64 bits without sign. -/
def word64? (cs : List Char) : Option Nat := natBelow? UInt64.size cs

/-- The least integer of 64 bits. -/
def int64Min : Int := Int64.minValue.toInt

/-- The greatest integer of 64 bits. -/
def int64Max : Int := Int64.maxValue.toInt

/-- An integer brought into 64 bits by stopping at the bounds. -/
def clampInt64 (n : Int) : Int := max int64Min (min int64Max n)

/-- A signed numeral of 64 bits. -/
def int64? (cs : List Char) : Option Int :=
  let value := match cs with
    | '+' :: rest => (nat? rest).map Int.ofNat
    | '-' :: rest => (nat? rest).map fun n => -Int.ofNat n
    | _ => (nat? cs).map Int.ofNat
  value.filter fun n => int64Min ≤ n && n ≤ int64Max

end CodeAtlas.Number
