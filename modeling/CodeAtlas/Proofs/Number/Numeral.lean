import CodeAtlas.Number.Digits
import Mathlib.Data.Int.Order.Basic
/-!
# Numerals that were written

A number in decimal digits is read back, and so is one with a sign if it has 64 bits (`int64?_toString`).
-/

namespace CodeAtlas.Number

theorem nat?_toDigits (n : Nat) : nat? (Nat.toDigits 10 n) = some n := by
  have hdigit : ∀ c ∈ Nat.toDigits 10 n, c.isDigit = true :=
    fun c hc => Nat.isDigit_of_mem_toDigits (by decide) (by decide) hc
  have hvalue : digitsValue (Nat.toDigits 10 n) = n := by
    rw [digitsValue, ← Nat.ofDigitChars_eq_foldl, Nat.ofDigitChars_ten_toDigits]
  rw [nat?, if_neg, hvalue]
  simpa [Nat.toDigits_ne_nil] using hdigit

/-- No sign precedes digits. -/
theorem toDigits_ne_cons {c : Char} (hc : c.isDigit = false) (n : Nat) (rest : List Char) :
    Nat.toDigits 10 n ≠ c :: rest := by
  intro heq
  have hdigit := Nat.isDigit_of_mem_toDigits (b := 10) (by decide) (by decide) (heq ▸ List.mem_cons_self)
  exact absurd hdigit (by simp [hc])

/-- A numeral is its digits, or a sign and its digits. -/
theorem toList_toString (n : Int) :
    (toString n).toList = if n < 0 then '-' :: Nat.toDigits 10 n.natAbs else Nat.toDigits 10 n.natAbs := by
  cases n with
  | ofNat m =>
      rw [if_neg (by simp)]
      exact Nat.toList_repr
  | negSucc m =>
      rw [if_pos (Int.negSucc_lt_zero m)]
      change ("-" ++ Nat.repr (m + 1)).toList = _
      rw [String.toList_append, Nat.toList_repr]
      rfl

theorem mem_toString {n : Int} {c : Char} (h : c ∈ (toString n).toList) : c = '-' ∨ c.isDigit = true := by
  have hdigit : ∀ m : Nat, c ∈ Nat.toDigits 10 m → c.isDigit = true :=
    fun m hm => Nat.isDigit_of_mem_toDigits (by decide) (by decide) hm
  rw [toList_toString] at h
  split at h
  · exact (List.mem_cons.1 h).imp_right (hdigit _)
  · exact Or.inr (hdigit _ h)

theorem int64?_toString {n : Int} (hmin : int64Min ≤ n) (hmax : n ≤ int64Max) :
    int64? (toString n).toList = some n := by
  have hbounds : (some n).filter (fun n => int64Min ≤ n && n ≤ int64Max) = some n :=
    Option.filter_some_pos (by simp [hmin, hmax])
  rw [toList_toString]
  split
  · have hneg : -Int.ofNat n.natAbs = n := by
      change -(n.natAbs : Int) = n
      omega
    simp only [int64?, nat?_toDigits, Option.map_some, hneg, hbounds]
  · have hpos : Int.ofNat n.natAbs = n := by
      change (n.natAbs : Int) = n
      omega
    unfold int64?
    split
    next heq => exact absurd heq (toDigits_ne_cons (by decide) _ _)
    next heq => exact absurd heq (toDigits_ne_cons (by decide) _ _)
    next => rw [nat?_toDigits, Option.map_some, hpos, hbounds]

end CodeAtlas.Number
