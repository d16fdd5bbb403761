import CodeAtlas.Proofs.Literal.Arguments
/-!
# Parts between separators

A text is cut at the separators that stand outside strings and brackets, and nowhere else. Where one stands there, the
scan is in the state that it began in (`Scan.Sound.eq_empty_of_divides`), so what follows is cut as a text of its own.
`Scan.Parts` says this of a text and its parts, and it singles them out (`Scan.parts_iff`). The parts, joined with
separators, are the text again, and no part can be cut further (`Scan.splitTop_lossless`).
-/

namespace CodeAtlas.Scan

open CodeAtlas.Text

variable {sep c : Char} {s t : Scan} {text cs : List Char}

/-! ## States -/

/-- Outside of strings no backslash is in force. -/
def Sound (s : Scan) : Prop := s.quote = none → s.escaped = false

theorem sound_empty : ({} : Scan).Sound := fun _ => rfl

theorem Sound.step (hs : s.Sound) (c : Char) : (s.step c).Sound := by
  intro hnext
  cases hquote : s.quote with
  | some q =>
      cases hescaped : s.escaped with
      | true => simp [Scan.step, hquote, hescaped]
      | false =>
          -- a backslash comes into force only while the string goes on
          simp only [Scan.step, hquote, hescaped, Bool.false_eq_true, if_false] at hnext ⊢
          split_ifs at hnext ⊢ <;> simp_all
  | none =>
      have hescaped := hs hquote
      simp only [Scan.step, hquote]
      split_ifs <;> exact hescaped

theorem Sound.foldl (hs : s.Sound) (cs : List Char) : (cs.foldl Scan.step s).Sound := by
  induction cs generalizing s with
  | nil => exact hs
  | cons c cs ih => exact ih (hs.step c)

/-- Where a separator counts, the scan is in the state that it began in. -/
theorem Sound.eq_empty_of_divides (hs : s.Sound) (h : s.divides sep c = true) :
    s = {} ∧ c = sep ∧ isStructural sep = false := by
  simp only [divides, Bool.and_eq_true, Option.isNone_iff_eq_none, beq_iff_eq, Bool.not_eq_true'] at h
  obtain ⟨⟨⟨hquote, hdepth⟩, rfl⟩, hplain⟩ := h
  have hescaped := hs hquote
  obtain ⟨quote, escaped, depth⟩ := s
  exact ⟨by simp_all, rfl, hplain⟩

/-- Brackets of either kind. -/
def isBracket (c : Char) : Bool := isOpening c || isClosing c

theorem natAbs_depth_step_le (s : Scan) (c : Char) :
    (s.step c).depth.natAbs ≤ s.depth.natAbs + if isBracket c then 1 else 0 := by
  unfold step isBracket
  split
  · split_ifs <;> simp
  · split_ifs <;> simp_all <;> omega

/-- No more brackets are open, or closed too often, than there are in the text. -/
theorem natAbs_depth_foldl_le (s : Scan) (cs : List Char) :
    (cs.foldl step s).depth.natAbs ≤ s.depth.natAbs + cs.countP isBracket := by
  induction cs generalizing s with
  | nil => simp
  | cons c cs ih =>
      have hstep := natAbs_depth_step_le s c
      have hrest := ih (s.step c)
      rw [List.foldl_cons, List.countP_cons]
      omega

/-! ## Parts -/

/-- A text and its parts: one part if no separator counts in it, else the part before the first that does, which leaves no
string and no bracket open, and the parts of what follows. -/
inductive Parts (sep : Char) : List Char → List (List Char) → Prop
  | whole {text : List Char} {t : Scan} (h : Passes sep {} text t) : Parts sep text [text]
  | cut {first rest : List Char} {parts : List (List Char)} (hsep : isStructural sep = false)
      (hfirst : Passes sep {} first {}) (hrest : Parts sep rest parts) : Parts sep (first ++ sep :: rest) (first :: parts)

/-- A text is passed over as a whole, or up to the first separator that counts. -/
theorem Sound.passes_or (hs : s.Sound) (sep : Char) (cs : List Char) :
    (∃ t, Passes sep s cs t) ∨
      ∃ first rest, cs = first ++ sep :: rest ∧ Passes sep s first {} ∧ isStructural sep = false := by
  induction cs generalizing s with
  | nil => exact Or.inl ⟨s, .nil s⟩
  | cons c cs ih =>
      cases hc : s.divides sep c with
      | true =>
          obtain ⟨rfl, rfl, hsep⟩ := hs.eq_empty_of_divides hc
          exact Or.inr ⟨[], cs, rfl, .nil {}, hsep⟩
      | false =>
          rcases ih (hs.step c) with ⟨t, ht⟩ | ⟨first, rest, rfl, hfirst, hsep⟩
          · exact Or.inl ⟨t, .cons hc ht⟩
          · exact Or.inr ⟨c :: first, rest, rfl, .cons hc hfirst, hsep⟩

theorem parts_splitTop (sep : Char) (text : List Char) : Parts sep text (splitTop sep text) := by
  induction hlength : text.length using Nat.strong_induction_on generalizing text with
  | _ n ih =>
      rcases sound_empty.passes_or sep text with ⟨t, ht⟩ | ⟨first, rest, rfl, hfirst, hsep⟩
      · rw [ht.splitTop_eq]
        exact .whole ht
      · have hshorter : rest.length < n := by
          rw [← hlength, List.length_append, List.length_cons]
          omega
        rw [hfirst.splitTop_append hsep]
        exact .cut hsep hfirst (ih _ hshorter rest rfl)

variable {parts : List (List Char)}

theorem Parts.splitTop_eq (h : Parts sep text parts) : splitTop sep text = parts := by
  induction h with
  | whole h => exact h.splitTop_eq
  | cut hsep hfirst _ ih => rw [hfirst.splitTop_append hsep, ih]

theorem parts_iff : Parts sep text parts ↔ splitTop sep text = parts :=
  ⟨Parts.splitTop_eq, fun h => h ▸ parts_splitTop sep text⟩

theorem Parts.joinWith_eq (h : Parts sep text parts) : joinWith [sep] parts = text := by
  induction h with
  | whole => exact List.intercalate_singleton
  | @cut first rest parts _ _ hrest ih =>
      cases parts with
      | nil => cases hrest
      | cons next parts => rw [joinWith_cons_cons, ih]

theorem Parts.whole_of_mem (h : Parts sep text parts) : ∀ part ∈ parts, Parts sep part [part] := by
  induction h with
  | whole h => exact List.forall_mem_singleton.2 (.whole h)
  | cut _ hfirst _ ih => exact List.forall_mem_cons.2 ⟨.whole hfirst, ih⟩

/-- The parts of a text, joined with separators, are the text, and each part is the only part of itself. They are cut at
all separators outside strings and brackets and at no other. On the way the count of open brackets stays within the number
of brackets. -/
theorem splitTop_lossless (sep : Char) (text : List Char) :
    joinWith [sep] (splitTop sep text) = text ∧ (∀ part ∈ splitTop sep text, splitTop sep part = [part]) ∧
      (∀ parts, splitTop sep text = parts ↔ Parts sep text parts) ∧
        ∀ before, before <+: text → (before.foldl step {}).depth.natAbs ≤ text.countP isBracket := by
  have hparts := parts_splitTop sep text
  refine ⟨hparts.joinWith_eq, fun part hpart => (hparts.whole_of_mem part hpart).splitTop_eq, fun _ => parts_iff.symm, ?_⟩
  intro before hbefore
  have hdepth := natAbs_depth_foldl_le {} before
  have hcount : before.countP isBracket ≤ text.countP isBracket := hbefore.sublist.countP_le
  exact Nat.le_trans hdepth (by simpa using hcount)

/-- A bracket that is closed but not opened hides the separators behind it until one is opened. -/
theorem splitTop_lossless_unopened :
    " c), d, (e".toList ∈ splitTop ',' "\"a,b\", [1, 2], c), d, (e, f".toList ∧
      splitTop ',' " c), d, (e".toList = [" c), d, (e".toList] := by
  have hmem : " c), d, (e".toList ∈ splitTop ',' "\"a,b\", [1, 2], c), d, (e, f".toList := by decide
  exact ⟨hmem, (splitTop_lossless ',' _).2.1 _ hmem⟩

end CodeAtlas.Scan
