import CodeAtlas.Number.Digits
/-!
# Binary floating point, in whole numbers

A finite number of 64 bits is `mantissa * 2 ^ exponent` with a mantissa below `2 ^ 53`. Reading a decimal
rounds to the nearest such number and a tie to the even mantissa; writing with a fixed number of places does the
same on the decimal side; the shortest text is the one with the fewest digits that reads back. All of it
is arithmetic on naturals, so nothing depends on the machine's own rounding.
-/

namespace CodeAtlas.Number

/-- A number of 64 bits. -/
inductive Binary where
  | finite (negative : Bool) (mantissa : Nat) (exponent : Int)
  | infinite (negative : Bool)
  | nan
deriving Repr, DecidableEq

/-- `num / den` rounded to the nearest natural, a tie to the even one. -/
def divRound (num den : Nat) : Nat :=
  let q := num / den
  let r := num % den
  if 2 * r < den then q
  else if den < 2 * r then q + 1
  else if q % 2 = 0 then q else q + 1

/-- The least exponent. -/
def minExponent : Int := -1074

/-- The greatest exponent of a full mantissa. -/
def maxExponent : Int := 971

namespace Binary

/-- `num * 2 ^ -e / den`, rounded. -/
def scaled (num den : Nat) (e : Int) : Nat :=
  if 0 ≤ e then divRound num (den <<< e.toNat) else divRound (num <<< (-e).toNat) den

/-- The nearest number to `num / den`. -/
def ofRatio (negative : Bool) (num den : Nat) : Binary :=
  if num = 0 then .finite negative 0 minExponent
  else
    -- the exponent that leaves a mantissa of 53 bits, or one more
    let guess : Int := (num.log2 : Int) - (den.log2 : Int) - 53
    let guess := max minExponent guess
    let m := scaled num den guess
    let (m, e) := if m < 1 <<< 53 then (m, guess) else
      let e := guess + 1
      let m := scaled num den e
      if m < 1 <<< 53 then (m, e) else (m / 2, e + 1)
    if maxExponent < e then .infinite negative else .finite negative m e

/-- The nearest number to a decimal `digits * 10 ^ scale`. Scales far outside the range are cut first. -/
def ofDecimal (negative : Bool) (digits : Nat) (scale : Int) : Binary :=
  if digits = 0 then .finite negative 0 minExponent
  else
    let width : Int := (digits.log2 : Int) / 3
    if 400 < scale then .infinite negative
    else if scale + width < -800 then .finite negative 0 minExponent
    else if 0 ≤ scale then ofRatio negative (digits * Nat.pow 10 scale.toNat) 1
    else ofRatio negative digits (Nat.pow 10 (-scale).toNat)

/-- The parts of a decimal numeral: digits, point and exponent, with at least one digit. -/
def unsigned? (negative : Bool) (cs : List Char) : Option Binary := do
  let whole := cs.takeWhile Char.isDigit
  let rest := cs.dropWhile Char.isDigit
  let (fraction, rest) := match rest with
    | '.' :: more => (more.takeWhile Char.isDigit, more.dropWhile Char.isDigit)
    | _ => ([], rest)
  if whole.isEmpty && fraction.isEmpty then none
  let power : Int ← match rest with
    | [] => some 0
    | c :: more =>
      if c = 'e' || c = 'E' then
        match more with
        | '-' :: digits => (nat? digits).map fun n => -Int.ofNat n
        | '+' :: digits => (nat? digits).map Int.ofNat
        | _ => (nat? more).map Int.ofNat
      else none
  some (ofDecimal negative (digitsValue (whole ++ fraction)) (power - fraction.length))

/-- The names of what is not finite, in small letters. -/
def named? (negative : Bool) (cs : List Char) : Option Binary :=
  let small := cs.map Char.toLower
  if small = "inf".toList || small = "infinity".toList then some (.infinite negative)
  else if small = "nan".toList then some .nan
  else none

/-- Reads a decimal numeral, or the name of what is not finite. -/
def ofText? (cs : List Char) : Option Binary :=
  let (negative, rest) := match cs with
    | '-' :: rest => (true, rest)
    | '+' :: rest => (false, rest)
    | _ => (false, cs)
  (unsigned? negative rest).or (named? negative rest)

/-- The machine number, taken apart. -/
def ofFloat (x : Float) : Binary :=
  let bits : Nat := x.toBits.toNat
  let negative := bits >>> 63 = 1
  let exponent : Nat := (bits >>> 52) % 2048
  let fraction : Nat := bits % (1 <<< 52)
  if exponent = 2047 then if fraction = 0 then .infinite negative else .nan
  else if exponent = 0 then .finite negative fraction minExponent
  else .finite negative ((1 <<< 52) + fraction) ((exponent : Int) - 1075)

/-- The machine number with these parts. -/
def toFloat : Binary → Float
  | .finite negative m e =>
    let size := (Float.ofNat m).scaleB e
    if negative then -size else size
  | .infinite negative => if negative then -1.0 / 0.0 else 1.0 / 0.0
  | .nan => 0.0 / 0.0

/-- The integer part, stopping at the bounds of 64 bits. -/
def truncate : Binary → Int
  | .finite negative m e =>
    let size : Nat := if 0 ≤ e then m <<< e.toNat else m >>> (-e).toNat
    clampInt64 (if negative then -(size : Int) else size)
  | .infinite negative => if negative then int64Min else int64Max
  | .nan => 0

/-- A natural in decimal digits. -/
def natText (n : Nat) : List Char := Nat.toDigits 10 n

/-- Decimal text of `n / 10 ^ places` with all places written. -/
def placed (places n : Nat) : List Char :=
  let digits := natText n
  let digits := List.replicate (places + 1 - digits.length) '0' ++ digits
  let whole := digits.take (digits.length - places)
  if places = 0 then whole else whole ++ '.' :: digits.drop (digits.length - places)

/-- A minus sign for negative numbers. -/
def signed (negative : Bool) (cs : List Char) : List Char :=
  if negative then '-' :: cs else cs

/-- The text with a fixed number of decimal places. -/
def fixed (places : Nat) : Binary → List Char
  | .finite negative m e =>
    let scaled :=
      if 0 ≤ e then (m <<< e.toNat) * Nat.pow 10 places else divRound (m * Nat.pow 10 places) (1 <<< (-e).toNat)
    signed negative (placed places scaled)
  | .infinite negative => signed negative "inf".toList
  | .nan => "NaN".toList

/-- The size `m * 2 ^ e` in units of `10 ^ scale`, as a numerator and a denominator. -/
def inUnits (m : Nat) (e scale : Int) : Nat × Nat :=
  let (num, den) := if 0 ≤ e then (m <<< e.toNat, 1) else (m, 1 <<< (-e).toNat)
  if 0 ≤ scale then (num, den * Nat.pow 10 scale.toNat) else (num * Nat.pow 10 (-scale).toNat, den)

/-- Whether the decimal `digits * 10 ^ scale` reads back as `m * 2 ^ e`. -/
def readsBack (m : Nat) (e scale : Int) (digits : Nat) : Bool :=
  digits ≠ 0 && ofDecimal false digits scale = .finite false m e

/-- The decimal of a scale that reads back and is nearest, if there is one. Below a power of two numbers lie closer together than above it, so it need not be the
decimal that is nearest of all; but it is next to the number on one side or the other. -/
def onGrid? (m : Nat) (e scale : Int) : Option Nat :=
  let (num, den) := inUnits m e scale
  [divRound num den, num / den, num / den + 1].find? (readsBack m e scale)

/-- The coarsest of the given grids on which the number reads back, finest grid last. -/
def shortestOn (m : Nat) (e : Int) : List Int → Nat × Int
  | [] => (0, 0)
  | scale :: finer =>
    match onGrid? m e scale with
    | some digits => (digits, scale)
    | none => shortestOn m e finer

/-- Digits and scale of the shortest decimal that reads back. -/
def shortest (m : Nat) (e : Int) : Nat × Int :=
  -- an estimate from above of the number of digits before the point
  let bits : Int := m.log2 + e
  let high : Int := bits * 30103 / 100000 + 2
  shortestOn m e ((List.range 20).map fun (i : Nat) => high - (i : Int))

/-- The shortest text that reads back, always without an exponent. -/
def plain : Binary → List Char
  | .finite negative m e =>
    if m = 0 then signed negative ['0']
    else
      let (digits, scale) := shortest m e
      signed negative <|
        if 0 ≤ scale then natText digits ++ List.replicate scale.toNat '0'
        else
          let text := placed (-scale).toNat digits
          text
  | .infinite negative => signed negative "inf".toList
  | .nan => "NaN".toList

end Binary

end CodeAtlas.Number
