import CodeAtlas.Text.Case
import Mathlib.Data.Char
/-!
# Plain names

A plain name consists of ASCII letters, digits and underscores. Such characters are word characters and no blanks, and
none of them has a meaning in the texts that are read. Facts about them are facts about the code points below 128.
-/

namespace CodeAtlas.Text

/-- ASCII letters, digits and the underscore. -/
def isNameChar (c : Char) : Bool := c.isAlphanum || c == '_'

theorem forall_ascii {P : Char → Prop} (h : ∀ n < 128, P (Char.ofNat n)) {c : Char} (hc : isAscii c = true) : P c := by
  have hbound : c.toNat < 128 := by simpa [isAscii] using hc
  have hchar := h c.toNat hbound
  rwa [Char.ofNat_toNat] at hchar

/-- A fact about the characters of a text is checked for one after the other. -/
theorem forall_mem_of_all {P : Char → Prop} [DecidablePred P] {cs : List Char} (h : cs.all (fun c => decide (P c)) = true) :
    ∀ c ∈ cs, P c :=
  fun c hc => of_decide_eq_true (List.all_eq_true.1 h c hc)

section

variable {c : Char}

theorem isNameChar_of_isAlpha (h : c.isAlpha = true) : isNameChar c = true := by
  rw [isNameChar, Char.isAlphanum, h]
  rfl

theorem isAscii_of_isNameChar (h : isNameChar c = true) : isAscii c = true := by
  have hranges : ((decide ('A'.val ≤ c.val ∧ c.val ≤ 'Z'.val) || ('a'.val ≤ c.val && c.val ≤ 'z'.val)) ||
      ('0'.val ≤ c.val && c.val ≤ '9'.val) || c == '_') = true := h
  simp only [Bool.or_eq_true, Bool.and_eq_true, decide_eq_true_eq, beq_iff_eq, UInt32.le_iff_toNat_le] at hranges
  simp only [isAscii, decide_eq_true_eq, Char.toNat]
  rcases hranges with ((hupper | hlower) | hdigit) | rfl
  · exact Nat.lt_of_le_of_lt hupper.2 (by decide)
  · exact Nat.lt_of_le_of_lt hlower.2 (by decide)
  · exact Nat.lt_of_le_of_lt hdigit.2 (by decide)
  · decide

/-- A fact about plain characters follows from the same fact about code points below 128. -/
theorem forall_nameChar {P : Char → Prop} (h : ∀ n < 128, isNameChar (Char.ofNat n) = true → P (Char.ofNat n))
    (hc : isNameChar c = true) : P c :=
  forall_ascii (P := fun c => isNameChar c = true → P c) h (isAscii_of_isNameChar hc) hc

theorem isBlank_of_isNameChar (h : isNameChar c = true) : isBlank c = false :=
  forall_nameChar (P := fun c => isBlank c = false) (by decide) h

theorem isWordChar_of_isNameChar (h : isNameChar c = true) : isWordChar c = true := by
  rw [isWordChar, if_pos (isAscii_of_isNameChar h)]
  exact h

theorem isAlphanumeric_of_isNameChar (h : isNameChar c = true) : (isAlphanumeric c || c == '_') = true :=
  forall_nameChar (P := fun c => (isAlphanumeric c || c == '_') = true) (by decide) h

theorem ne_of_isNameChar {x : Char} (h : isNameChar c = true) (hx : isNameChar x = false) : c ≠ x := by
  rintro rfl
  exact absurd h (by simp [hx])

theorem isNameChar_capitalForm (h : isNameChar c = true) : ∀ x ∈ capitalForm c, isNameChar x = true := by
  rw [capitalForm, if_pos (isAscii_of_isNameChar h)]
  simp only [List.mem_singleton, forall_eq]
  exact forall_nameChar (P := fun c => isNameChar c.toUpper = true) (by decide) h

end

/-- The characters of a plain name. -/
def Plain (cs : List Char) : Prop := ∀ c ∈ cs, isNameChar c = true

instance (cs : List Char) : Decidable (Plain cs) := decidable_of_iff (cs.all isNameChar = true) List.all_eq_true

theorem Plain.append {cs ds : List Char} (hcs : Plain cs) (hds : Plain ds) : Plain (cs ++ ds) :=
  List.forall_mem_append.2 ⟨hcs, hds⟩

theorem Plain.cons {c : Char} {cs : List Char} (hc : isNameChar c = true) (hcs : Plain cs) : Plain (c :: cs) :=
  List.forall_mem_cons.2 ⟨hc, hcs⟩

theorem Plain.not_mem {cs : List Char} (h : Plain cs) {x : Char} (hx : isNameChar x = false) : x ∉ cs := by
  intro hmem
  exact ne_of_isNameChar (h x hmem) hx rfl

end CodeAtlas.Text
