import CodeAtlas.Json.Basic
/-!
# JSON numerals

A numeral is first taken apart (`Numeral.read?`) and then given a value (`Numeral.value?`). Without point and exponent it is whole as long as it fits 64
bits, with or without sign. Any other is read as its leading digits, as many as fit 64 bits, times a power of ten; digits and power are
rounded to binary before they meet, so the last place of the product may be off. What would be infinite has no value.
-/

namespace CodeAtlas.Json

/-- A numeral: its sign, the digits before the point, those after it, and the exponent. -/
structure Numeral where
  negative : Bool
  whole : List Char
  fraction : Option (List Char)
  power : Option Int
deriving Repr, DecidableEq, Inhabited

namespace Numeral

/-- The digits after a point, if there is one, and what follows. -/
def fraction? : List Char → Option (Option (List Char) × List Char)
  | '.' :: rest =>
    let digits := rest.takeWhile Char.isDigit
    if digits.isEmpty then none else some (some digits, rest.dropWhile Char.isDigit)
  | cs => some (none, cs)

/-- The exponent, if there is one, and what follows. -/
def power? : List Char → Option (Option Int × List Char)
  | [] => some (none, [])
  | c :: cs =>
    if c = 'e' || c = 'E' then
      let (minus, rest) := match cs with
        | '-' :: rest => (true, rest)
        | '+' :: rest => (false, rest)
        | _ => (false, cs)
      let digits := rest.takeWhile Char.isDigit
      if digits.isEmpty then none
      else
        let n : Int := Number.digitsValue digits
        some (some (if minus then -n else n), rest.dropWhile Char.isDigit)
    else some (none, c :: cs)

/-- The numeral at the start of a text, and what follows. A zero at the start stands alone before the point. -/
def read? (cs : List Char) : Option (Numeral × List Char) := do
  let (negative, body) := match cs with
    | '-' :: rest => (true, rest)
    | _ => (false, cs)
  let whole := body.takeWhile Char.isDigit
  if whole.isEmpty || (whole.length > 1 && whole.head? = some '0') then none
  let (fraction, rest) ← fraction? (body.dropWhile Char.isDigit)
  let (power, rest) ← power? rest
  return (⟨negative, whole, fraction, power⟩, rest)

/-- Digits added to a number as long as it fits 64 bits, and how many there were. -/
def extend : Nat → List Char → Nat × Nat
  | n, [] => (n, 0)
  | n, c :: cs =>
    let next := 10 * n + (c.toNat - '0'.toNat)
    if next < UInt64.size then
      let (m, used) := extend next cs
      (m, used + 1)
    else (n, 0)

/-- The digits that count, and the power of ten they are taken times. -/
def leading (n : Numeral) : Nat × Int :=
  let (first, used) := extend 0 n.whole
  let (digits, places) := extend first (n.fraction.getD [])
  (digits, (n.whole.length - used : Nat) - (places : Int) + n.power.getD 0)

/-- The greatest power of ten that is not infinite. -/
def maxPower : Nat := 308

/-- The size of a rounded product or quotient, as a mantissa and an exponent; there is none if it is infinite. -/
def rounded? (num den : Nat) : Option (Nat × Int) :=
  match Number.Binary.ofRatio false num den with
  | .finite _ m e => some (m, e)
  | _ => none

/-- A rounded size times, or by, a power of ten that is rounded itself. -/
def scaleBy? (size : Nat × Int) (power : Nat) (up : Bool) : Option (Nat × Int) := do
  let (p, q) ← rounded? (Nat.pow 10 power) 1
  let exponent := if up then size.2 + q else size.2 - q
  let (num, den) := if up then (size.1 * p, 1) else (size.1, p)
  if 0 ≤ exponent then rounded? (num <<< exponent.toNat) den else rounded? num (den <<< (-exponent).toNat)

/-- A rounded size times a power of ten. Powers below the range are divided by in steps, until nothing is left or `steps` have been made. -/
def scaled? : Nat → Nat × Int → Int → Option (Nat × Int)
  | 0, size, _ => some size
  | steps + 1, size, power =>
    if size.1 = 0 then some size
    else if (maxPower : Int) < power then none
    else if 0 ≤ power then scaleBy? size power.toNat true
    else if -(maxPower : Int) ≤ power then scaleBy? size (-power).toNat false
    else (scaleBy? size maxPower false).bind fun size => scaled? steps size (power + maxPower)

/-- The value of a numeral. Three steps down leave nothing of any number of 64 bits. -/
def value? (n : Numeral) : Option Json :=
  let size := Number.digitsValue n.whole
  if n.fraction.isNone && n.power.isNone && (if n.negative then size ≠ 0 && size ≤ UInt64.size / 2 else size < UInt64.size) then
    some (.int (if n.negative then -(size : Int) else size))
  else
    let (digits, power) := n.leading
    ((rounded? digits 1).bind fun size => scaled? 4 size power).map fun (m, e) => .real (.finite n.negative m e)

end Numeral

end CodeAtlas.Json
