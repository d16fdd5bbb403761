import CodeAtlas.Proofs.Literal.Splitting
import CodeAtlas.Proofs.Outline.Lines
import Mathlib.Data.List.Infix
/-!
# Lines with a string in them

A string between double quotes, in which there is neither such a quote nor a backslash, leaves a scan where it was. So what
stands in it has no part in where the comment of its line starts (`Scan.codePart_string`), and none in what is left of the line
without the contents of its strings (`blankFrom_string`). A text block is looked for in strings as well: what stands in a
string has no part in that if it holds no opener, and the quote is not that of the word of a text block
(`heredoc?_string`).
-/

namespace CodeAtlas

open CodeAtlas.Text

namespace Scan

/-- Outside of strings. -/
structure Outside (s : Scan) : Prop where
  quote : s.quote = none
  escaped : s.escaped = false

theorem outside_foldl {cs : List Char} (h : (cs.foldl step {}).quote = none) : Outside (cs.foldl step {}) :=
  ⟨h, sound_empty.foldl cs h⟩

variable {s : Scan} {cs : List Char}

theorem Outside.step_quote (hs : s.Outside) : s.step '"' = { s with quote := some '"' } := by
  rw [step, hs.quote]
  rfl

theorem Outside.step_close (hs : s.Outside) : ({ s with quote := some '"' } : Scan).step '"' = s := by
  obtain ⟨hquote, hescaped⟩ := hs
  cases s
  simp_all [step]

theorem Outside.step_inside (hs : s.Outside) {c : Char} (hc : c ≠ '\\' ∧ c ≠ '"') :
    ({ s with quote := some '"' } : Scan).step c = { s with quote := some '"' } := by
  simp [step, hs.escaped, hc]

theorem codePart_append (s : Scan) (u : List Char) :
    (∀ v, codePart s (u ++ v) = codePart s u) ∨ ∀ v, codePart s (u ++ v) = u ++ codePart (u.foldl step s) v := by
  induction u generalizing s with
  | nil => exact Or.inr fun v => rfl
  | cons c u ih =>
      by_cases hsign : (s.quote.isNone && c == '#') = true
      · exact Or.inl fun v => by rw [List.cons_append, codePart, codePart, if_pos hsign, if_pos hsign]
      · have hcons : ∀ v, codePart s (c :: v) = c :: codePart (s.step c) v := fun v => by rw [codePart, if_neg hsign]
        rcases ih (s.step c) with hstop | hpass
        · exact Or.inl fun v => by rw [List.cons_append, hcons, hcons, hstop]
        · exact Or.inr fun v => by rw [List.cons_append, hcons, hpass, List.foldl_cons, List.cons_append]

theorem codePart_string (hs : s.Outside) (h : ∀ c ∈ cs, c ≠ '\\' ∧ c ≠ '"') (after : List Char) :
    codePart s ('"' :: (cs ++ '"' :: after)) = '"' :: (cs ++ '"' :: codePart s after) := by
  have hinside : ∀ v, codePart { s with quote := some '"' } (cs ++ v) = cs ++ codePart { s with quote := some '"' } v := by
    intro v
    induction cs with
    | nil => rfl
    | cons c cs ih =>
        obtain ⟨hc, hcs⟩ := List.forall_mem_cons.1 h
        rw [List.cons_append, codePart, if_neg (by simp), hs.step_inside hc, ih hcs, List.cons_append]
  rw [codePart, if_neg (by simp), hs.step_quote, hinside, codePart, if_neg (by simp), hs.step_close]

end Scan

namespace Outline

/-! ## Contents of strings -/

theorem blankFrom_append (s : Scan) (u v : List Char) :
    blankFrom s (u ++ v) = blankFrom s u ++ blankFrom (u.foldl Scan.step s) v := by
  induction u generalizing s with
  | nil => rfl
  | cons c u ih =>
      rw [List.cons_append, blankFrom, blankFrom, List.foldl_cons]
      split
      · rw [ih]
      · rw [ih, List.cons_append]

theorem blankFrom_string {s : Scan} (hs : s.Outside) {cs : List Char} (h : ∀ c ∈ cs, c ≠ '\\' ∧ c ≠ '"') (after : List Char) :
    blankFrom s ('"' :: (cs ++ '"' :: after)) = '"' :: '"' :: blankFrom s after := by
  have hinside : ∀ v, blankFrom { s with quote := some '"' } (cs ++ v) = blankFrom { s with quote := some '"' } v := by
    intro v
    induction cs with
    | nil => rfl
    | cons c cs ih =>
        obtain ⟨hc, hcs⟩ := List.forall_mem_cons.1 h
        rw [List.cons_append, blankFrom, hs.step_inside hc]
        exact ih hcs
  rw [blankFrom_cons hs.quote, hs.step_quote, hinside, blankFrom, hs.step_close]
  simp [hs.quote]

/-- What is left of a line starts as the line does, up to its first quote. -/
theorem exists_eq_append_of_blankFrom {s : Scan} (hs : s.quote = none) {raw u v : List Char}
    (hu : ∀ c ∈ u, Scan.isQuote c = false) (h : blankFrom s raw = u ++ v) : ∃ rest, raw = u ++ rest := by
  induction u generalizing s raw with
  | nil => exact ⟨raw, rfl⟩
  | cons c u ih =>
      obtain ⟨hc, hrest⟩ := List.forall_mem_cons.1 hu
      cases raw with
      | nil => exact absurd h (by simp [blankFrom])
      | cons d raw =>
          rw [blankFrom_cons hs, List.cons_append, List.cons.injEq] at h
          obtain ⟨rfl, h⟩ := h
          obtain ⟨rest, hraw⟩ := ih (Scan.quote_step hs hc) hrest h
          exact ⟨rest, by rw [hraw, List.cons_append]⟩

/-! ## Text blocks -/

/-- The texts behind which the word of a text block may stand in quotes. -/
def openers : List (List Char) := ["<<", "<<~", "<<-"].map String.toList

/-- What is left without a first character of some kind. -/
def dropOne (p : Char → Bool) : List Char → List Char
  | [] => []
  | c :: cs => if p c then cs else c :: cs

/-- The word of a text block at the start. -/
def blockWord? : List Char → Option (List Char)
  | [] => none
  | c :: more => if c.isUpper || c == '_' then some (c :: more.takeWhile fun d => d.isAlphanum || d == '_') else none

theorem dropOne_quote (cs : List Char) :
    dropOne Scan.isQuote cs = match cs with
      | '"' :: more => more
      | '\'' :: more => more
      | _ => cs := by
  split
  next => rfl
  next => rfl
  next hdouble hsingle =>
    cases cs with
    | nil => rfl
    | cons c cs =>
        have hc : c ≠ '"' ∧ c ≠ '\'' := ⟨fun h => hdouble cs (h ▸ rfl), fun h => hsingle cs (h ▸ rfl)⟩
        simp [dropOne, Scan.isQuote, hc]

theorem dropOne_mark (cs : List Char) :
    dropOne (fun c => c == '~' || c == '-') cs = match cs with
      | '~' :: more => more
      | '-' :: more => more
      | _ => cs := by
  split
  next => rfl
  next => rfl
  next htilde hdash =>
    cases cs with
    | nil => rfl
    | cons c cs =>
        have hc : c ≠ '~' ∧ c ≠ '-' := ⟨fun h => htilde cs (h ▸ rfl), fun h => hdash cs (h ▸ rfl)⟩
        simp [dropOne, hc]

theorem blockWord?_eq (cs : List Char) :
    blockWord? cs = match cs with
      | c :: more => if c.isUpper || c == '_' then some (c :: more.takeWhile fun d => d.isAlphanum || d == '_') else none
      | [] => none := by
  cases cs <;> rfl

theorem heredocHere?_eq (cs : List Char) :
    heredocHere? ('<' :: '<' :: cs) = blockWord? (dropOne Scan.isQuote (dropOne (fun c => c == '~' || c == '-') cs)) := by
  rw [blockWord?_eq, dropOne_quote, dropOne_mark]
  rfl

theorem dropOne_append (p : Char → Bool) {cs : List Char} (h : cs ≠ []) (rest : List Char) :
    dropOne p (cs ++ rest) = dropOne p cs ++ rest := by
  cases cs with
  | nil => exact absurd rfl h
  | cons c cs =>
      rw [List.cons_append, dropOne, dropOne]
      split <;> rfl

theorem blockWord?_append (cs rest : List Char) : blockWord? (cs ++ '"' :: rest) = blockWord? cs := by
  cases cs with
  | nil => rfl
  | cons c cs => rw [List.cons_append, blockWord?, blockWord?, takeWhile_append_cons (by decide)]

/-- A quote that is not that of the word of a text block ends what stands before it. -/
theorem heredocHere?_append {u : List Char} (hu : u ∉ openers) (v : List Char) :
    heredocHere? (u ++ '"' :: v) = heredocHere? (u ++ ['"']) := by
  by_cases hopen : ∃ rest, u = '<' :: '<' :: rest
  · obtain ⟨rest, rfl⟩ := hopen
    have hrest : rest ≠ [] ∧ dropOne (fun c => c == '~' || c == '-') rest ≠ [] := by
      cases rest with
      | nil => exact absurd (by decide) hu
      | cons c rest =>
          refine ⟨List.cons_ne_nil _ _, fun hnil => hu ?_⟩
          rw [dropOne] at hnil
          split at hnil
          next hc =>
            rw [hnil]
            rcases Bool.or_eq_true_iff.1 hc with hc | hc <;> rw [beq_iff_eq.1 hc] <;> decide
          next => exact absurd hnil (List.cons_ne_nil _ _)
    simp only [List.cons_append, heredocHere?_eq, dropOne_append _ hrest.1, dropOne_append _ hrest.2, blockWord?_append]
  · -- the signs stand before the quote, or one of them would be the quote
    have hnone : ∀ v, after? ['<', '<'] (u ++ '"' :: v) = none := by
      intro v
      rcases u with _ | ⟨c, _ | ⟨d, u⟩⟩
      · rfl
      · simp [after?]
      · have hsigns : '<' = c → ¬ '<' = d := by
          rintro rfl rfl
          exact hopen ⟨u, rfl⟩
        simpa [after?] using hsigns
    rw [heredocHere?, heredocHere?, hnone, hnone]

theorem heredoc?_quote {u : List Char} (hu : ∀ opener ∈ openers, ¬ opener <:+ u) (v : List Char) :
    heredoc? (u ++ '"' :: v) = (heredoc? (u ++ ['"'])).or (heredoc? v) := by
  induction u with
  | nil => rfl
  | cons c u ih =>
      have hhere := heredocHere?_append (u := c :: u) (fun hmem => hu _ hmem List.suffix_rfl) v
      rw [List.cons_append] at hhere
      rw [List.cons_append, List.cons_append, heredoc?, heredoc?, hhere,
        ih fun opener hopener hends => hu opener hopener (hends.trans (List.suffix_cons c u)), Option.or_assoc]
      rfl

theorem heredoc?_of_not_infix {cs : List Char} (h : ¬ ['<', '<'] <:+: cs) : heredoc? cs = none := by
  induction cs with
  | nil => rfl
  | cons c cs ih =>
      have hhere : heredocHere? (c :: cs) = none := by
        cases hafter : after? ['<', '<'] (c :: cs) with
        | none => rw [heredocHere?, hafter]; rfl
        | some rest =>
            rw [after?_eq_some_iff] at hafter
            exact absurd ⟨[], rest, by rw [hafter]; rfl⟩ h
      rw [heredoc?, hhere, ih fun hmid => h (hmid.trans (List.suffix_cons c cs).isInfix), Option.none_or]

/-- What stands in a string opens no text block if no opener is in it and its quote is not that of the word of a text block. -/
theorem heredoc?_string {u cs : List Char} (hu : ∀ opener ∈ openers, ¬ opener <:+ u) (hcs : ¬ ['<', '<'] <:+: cs)
    (after : List Char) : heredoc? (u ++ '"' :: (cs ++ '"' :: after)) = (heredoc? (u ++ ['"'])).or (heredoc? after) := by
  have hopeners : ∀ opener ∈ openers, ['<', '<'] <:+: opener := by decide
  have hclose : ∀ opener ∈ openers, ¬ opener <:+ cs := fun opener hopener hends =>
    hcs ((hopeners opener hopener).trans hends.isInfix)
  have hnone : heredoc? (cs ++ ['"']) = none := by
    refine heredoc?_of_not_infix fun hmid => (List.infix_concat_iff.1 hmid).elim (fun hends => ?_) hcs
    obtain ⟨rest, hrest⟩ := hends
    have hlast := congrArg List.getLast? hrest
    rw [List.getLast?_append_of_ne_nil _ (List.cons_ne_nil _ _), List.getLast?_concat] at hlast
    exact absurd hlast (by decide)
  rw [heredoc?_quote hu, heredoc?_quote hclose, hnone, Option.none_or]

end Outline

end CodeAtlas
