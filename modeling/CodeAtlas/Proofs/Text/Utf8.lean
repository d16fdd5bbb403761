import CodeAtlas.Text.Utf8
import Mathlib.Tactic.IntervalCases
/-!
# Texts and their bytes

The bytes of a text are those of its characters, one after the other, and reading them gives the text back.
-/

namespace CodeAtlas.Text

theorem toList_loop (bytes : ByteArray) (i : Nat) (done : List UInt8) :
    ByteArray.toList.loop bytes i done = done.reverse ++ bytes.data.toList.drop i := by
  induction h : bytes.size - i generalizing i done with
  | zero =>
      have hi : ¬ i < bytes.size := by omega
      have hlen : bytes.data.toList.length ≤ i := by simpa using hi
      rw [ByteArray.toList.loop, if_neg hi, List.drop_eq_nil_of_le hlen, List.append_nil]
  | succ n ih =>
      have hi : i < bytes.size := by omega
      have hlen : i < bytes.data.toList.length := by simpa using hi
      have hget : bytes.get! i = bytes.data.toList[i] := by
        rw [Array.getElem_toList]
        exact getElem!_pos bytes.data i hi
      rw [ByteArray.toList.loop, if_pos hi, ih (i + 1) _ (by omega), hget, List.drop_eq_getElem_cons hlen,
        List.reverse_cons, List.append_assoc, List.singleton_append]

theorem encode_ofList (cs : List Char) : encode (String.ofList cs) = cs.flatMap String.utf8EncodeChar := by
  rw [encode, String.toUTF8, String.toByteArray_ofList, List.utf8Encode, ByteArray.toList, toList_loop]
  simp

namespace Utf8

theorem toNat_ofNat {n : Nat} (h : n < 256) : (UInt8.ofNat n).toNat = n := by
  rw [UInt8.toNat_ofNat']
  exact Nat.mod_eq_of_lt h

section

variable {a : UInt8} {l : Lead}

theorem decodeFrom_lead (ha : ¬ a < 0x80) (hl : lead? a = some l) (bytes : List UInt8) :
    decodeFrom none (a :: bytes) = decodeFrom (some ⟨l.bits, l.least, l.greatest, l.further + 1⟩) bytes := by
  rw [decodeFrom, start, if_neg ha, hl]
  rfl

theorem decodeFrom_further {p : Pending} {b : UInt8} (hb : p.least ≤ b ∧ b ≤ p.greatest) (hmore : 1 < p.needed)
    (bytes : List UInt8) :
    decodeFrom (some p) (b :: bytes) = decodeFrom (some ⟨p.bits * 64 + low b, 0x80, 0xBF, p.needed - 1⟩) bytes := by
  have hin : (decide (p.least ≤ b) && decide (b ≤ p.greatest)) = true := by simp [hb]
  rw [decodeFrom, if_pos hin, if_neg (by omega)]

theorem decodeFrom_last {p : Pending} {b : UInt8} (hb : p.least ≤ b ∧ b ≤ p.greatest) (hlast : p.needed = 1)
    (bytes : List UInt8) :
    decodeFrom (some p) (b :: bytes) = Char.ofNat (p.bits * 64 + low b) :: decodeFrom none bytes := by
  have hin : (decide (p.least ≤ b) && decide (b ≤ p.greatest)) = true := by simp [hb]
  rw [decodeFrom, if_pos hin, if_pos (by omega)]

end

theorem continues {n : Nat} (h : n < 64) :
    (0x80 ≤ UInt8.ofNat (n + 128) ∧ UInt8.ofNat (n + 128) ≤ 0xBF) ∧ low (UInt8.ofNat (n + 128)) = n := by
  have hn : (UInt8.ofNat (n + 128)).toNat = n + 128 := toNat_ofNat (by omega)
  refine ⟨⟨?_, ?_⟩, ?_⟩
  · rw [UInt8.le_iff_toNat_le, hn]
    exact Nat.le_add_left 128 n
  · rw [UInt8.le_iff_toNat_le, hn]
    change n + 128 ≤ 191
    omega
  · rw [low, hn]
    omega

theorem lead_two {k : Nat} (hk : 2 ≤ k ∧ k < 32) : lead? (UInt8.ofNat (k + 192)) = some ⟨k, 0x80, 0xBF, 0⟩ := by
  obtain ⟨hlow, hhigh⟩ := hk
  interval_cases k <;> rfl

/-- The first bytes of a character of three bytes. Those that would give a character of two bytes, or half of a pair,
are none. -/
theorem lead_three {k m : Nat} (hk : k < 16) (hm : m < 64) (hlong : k = 0 → 32 ≤ m) (hpair : k = 13 → m < 32) :
    ∃ l, lead? (UInt8.ofNat (k + 224)) = some l ∧ l.bits = k ∧ l.further = 1 ∧
      l.least ≤ UInt8.ofNat (m + 128) ∧ UInt8.ofNat (m + 128) ≤ l.greatest := by
  have hcont := (continues hm).1
  have hsecond : (UInt8.ofNat (m + 128)).toNat = m + 128 := toNat_ofNat (by omega)
  by_cases hzero : k = 0
  · subst hzero
    refine ⟨⟨0, 0xA0, 0xBF, 1⟩, rfl, rfl, rfl, ?_, hcont.2⟩
    rw [UInt8.le_iff_toNat_le, hsecond]
    exact Nat.add_le_add_right (hlong rfl) 128
  by_cases hthirteen : k = 13
  · subst hthirteen
    refine ⟨⟨13, 0x80, 0x9F, 1⟩, rfl, rfl, rfl, hcont.1, ?_⟩
    rw [UInt8.le_iff_toNat_le, hsecond]
    exact Nat.add_le_add_right (Nat.le_of_lt_succ (hpair rfl)) 128
  have hlead : lead? (UInt8.ofNat (k + 224)) = some ⟨k, 0x80, 0xBF, 1⟩ := by
    interval_cases k <;> first | rfl | omega
  exact ⟨_, hlead, rfl, rfl, hcont⟩

theorem lead_four {k m : Nat} (hk : k ≤ 4) (hm : m < 64) (hlong : k = 0 → 16 ≤ m) (hlast : k = 4 → m < 16) :
    ∃ l, lead? (UInt8.ofNat (k + 240)) = some l ∧ l.bits = k ∧ l.further = 2 ∧
      l.least ≤ UInt8.ofNat (m + 128) ∧ UInt8.ofNat (m + 128) ≤ l.greatest := by
  have hcont := (continues hm).1
  have hsecond : (UInt8.ofNat (m + 128)).toNat = m + 128 := toNat_ofNat (by omega)
  by_cases hzero : k = 0
  · subst hzero
    refine ⟨⟨0, 0x90, 0xBF, 2⟩, rfl, rfl, rfl, ?_, hcont.2⟩
    rw [UInt8.le_iff_toNat_le, hsecond]
    exact Nat.add_le_add_right (hlong rfl) 128
  by_cases hfour : k = 4
  · subst hfour
    refine ⟨⟨4, 0x80, 0x8F, 2⟩, rfl, rfl, rfl, hcont.1, ?_⟩
    rw [UInt8.le_iff_toNat_le, hsecond]
    exact Nat.add_le_add_right (Nat.le_of_lt_succ (hlast rfl)) 128
  have hlead : lead? (UInt8.ofNat (k + 240)) = some ⟨k, 0x80, 0xBF, 2⟩ := by
    interval_cases k <;> first | rfl | omega
  exact ⟨_, hlead, rfl, rfl, hcont⟩

theorem not_lt_lead {n : Nat} (hlow : 128 ≤ n) (hhigh : n < 256) : ¬ UInt8.ofNat n < 0x80 := by
  rw [UInt8.lt_iff_toNat_lt, toNat_ofNat hhigh]
  change ¬ n < 128
  omega

/-- The bytes of a character are read as that character. -/
theorem decodeFrom_char (c : Char) (bytes : List UInt8) :
    decodeFrom none (String.utf8EncodeChar c ++ bytes) = c :: decodeFrom none bytes := by
  have hvalid : c.val.toNat < 0xD800 ∨ 0xDFFF < c.val.toNat ∧ c.val.toNat < 0x110000 := c.valid
  have hchar : ∀ n, n = c.val.toNat → Char.ofNat n = c := fun n hn => hn ▸ Char.ofNat_toNat c
  rw [String.utf8EncodeChar.eq_def]
  dsimp only
  generalize c.val.toNat = v at hvalid hchar
  split
  · next hv =>
      have hone : (UInt8.ofNat v).toNat = v := toNat_ofNat (by omega)
      have hlt : UInt8.ofNat v < 0x80 := by
        rw [UInt8.lt_iff_toNat_lt, hone]
        exact Nat.lt_succ_of_le hv
      rw [List.singleton_append, decodeFrom, start, if_pos hlt, hone, hchar v rfl]
      rfl
  split
  · next hv _ =>
      obtain ⟨hin, hlow⟩ := continues (n := v % 64) (by omega)
      have hk : v / 64 % 32 = v / 64 := by omega
      rw [hk, List.cons_append, decodeFrom_lead (not_lt_lead (by omega) (by omega)) (lead_two (by omega)),
        List.singleton_append, decodeFrom_last hin rfl, hlow, hchar _ (by dsimp only; omega)]
  split
  · next hv _ =>
      obtain ⟨hin, hlow⟩ := continues (n := v % 64) (by omega)
      have hk : v / 4096 % 16 = v / 4096 := by omega
      have hmid := (continues (n := v / 64 % 64) (by omega)).2
      obtain ⟨l, hl, hbits, hfurther, hsecond⟩ := lead_three (k := v / 4096) (m := v / 64 % 64) (by omega) (by omega)
        (by omega) (by omega)
      rw [hk, List.cons_append, decodeFrom_lead (not_lt_lead (by omega) (by omega)) hl, List.cons_append,
        decodeFrom_further hsecond (by dsimp only; omega), List.singleton_append,
        decodeFrom_last hin (by dsimp only; omega), hlow, hmid, hbits, hchar _ (by dsimp only; omega)]
  · next hv =>
      obtain ⟨hin, hlow⟩ := continues (n := v % 64) (by omega)
      obtain ⟨hin', hlow'⟩ := continues (n := v / 64 % 64) (by omega)
      have hk : v / 262144 % 8 = v / 262144 := by omega
      have hmid := (continues (n := v / 4096 % 64) (by omega)).2
      obtain ⟨l, hl, hbits, hfurther, hsecond⟩ := lead_four (k := v / 262144) (m := v / 4096 % 64) (by omega)
        (by omega) (by omega) (by omega)
      rw [hk, List.cons_append, decodeFrom_lead (not_lt_lead (by omega) (by omega)) hl, List.cons_append,
        decodeFrom_further hsecond (by dsimp only; omega), List.cons_append,
        decodeFrom_further hin' (by dsimp only; omega), List.singleton_append,
        decodeFrom_last hin (by dsimp only; omega), hlow, hlow', hmid, hbits, hchar _ (by dsimp only; omega)]

theorem decodeFrom_chars (cs : List Char) : decodeFrom none (cs.flatMap String.utf8EncodeChar) = cs := by
  induction cs with
  | nil => rfl
  | cons c rest ih => rw [List.flatMap_cons, decodeFrom_char, ih]

end Utf8

theorem decode_encode (s : String) : decode (encode s) = s := by
  have hbytes := encode_ofList s.toList
  rw [String.ofList_toList] at hbytes
  rw [decode, hbytes, Utf8.decodeFrom_chars, String.ofList_toList]

theorem decodeExact?_encode (s : String) : decodeExact? (encode s) = some s := by
  rw [decodeExact?, decode_encode, if_pos rfl]

end CodeAtlas.Text
