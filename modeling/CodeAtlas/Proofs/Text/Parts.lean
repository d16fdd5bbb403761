import CodeAtlas.Text.Basic
import Mathlib.Data.List.Basic
/-!
# Parts of texts

What the operations on texts do to a text that is put together from known parts: beginnings and endings are taken off
again, a text is split where it was joined, blanks around a text that starts and ends otherwise are trimmed, and lines
that were written one after the other are read again.
-/

namespace CodeAtlas.Text

/-! ## Beginnings and endings -/

theorem after?_eq_some_iff {beginning cs rest : List Char} : after? beginning cs = some rest ↔ cs = beginning ++ rest := by
  induction beginning generalizing cs with
  | nil => simp [after?, eq_comm]
  | cons b bs ih =>
      cases cs with
      | nil => simp [after?]
      | cons c cs =>
          rw [after?]
          split
          · next h => rw [ih, List.cons_append, List.cons.injEq, h, eq_self_iff_true, true_and]
          · next h => simp [Ne.symm h]

@[simp] theorem after?_append (beginning rest : List Char) : after? beginning (beginning ++ rest) = some rest :=
  after?_eq_some_iff.2 rfl

theorem after?_of_not_mem {c : Char} {beginning cs : List Char} (h : c ∉ cs) : after? (c :: beginning) cs = none := by
  cases hrest : after? (c :: beginning) cs with
  | none => rfl
  | some rest =>
      rw [after?_eq_some_iff] at hrest
      exact absurd (hrest ▸ List.mem_append_left rest List.mem_cons_self) h

/-- A beginning that does not hold a character is looked for before it. -/
theorem after?_append_cons {c : Char} {beginning : List Char} (h : c ∉ beginning) (u v : List Char) :
    after? beginning (u ++ c :: v) = (after? beginning u).map (· ++ c :: v) := by
  induction beginning generalizing u with
  | nil => rfl
  | cons b beginning ih =>
      rw [List.mem_cons, not_or] at h
      cases u with
      | nil => rw [List.nil_append, after?, Option.map_none, after?, if_neg (Ne.symm h.1)]
      | cons d u =>
          rw [List.cons_append, after?, after?, ih h.2]
          split <;> rfl

theorem startsWith_append_cons {c : Char} {beginning : List Char} (h : c ∉ beginning) (u v : List Char) :
    startsWith beginning (u ++ c :: v) = startsWith beginning u := by
  induction beginning generalizing u with
  | nil => rfl
  | cons b beginning ih =>
      rw [List.mem_cons, not_or] at h
      cases u with
      | nil =>
          have hne : (b == c) = false := by simpa using Ne.symm h.1
          change (b == c && _) = false
          rw [hne, Bool.false_and]
      | cons d u =>
          change (b == d && startsWith beginning (u ++ c :: v)) = (b == d && startsWith beginning u)
          rw [ih h.2]

theorem dropAllStart_of_not_mem {c : Char} {beginning cs : List Char} (h : c ∉ cs) :
    dropAllStart (c :: beginning) cs = cs := by
  rw [dropAllStart, after?_of_not_mem h]

theorem before?_eq_some_iff {ending cs stem : List Char} : before? ending cs = some stem ↔ cs = stem ++ ending := by
  rw [before?, Option.map_eq_some_iff]
  constructor
  · intro ⟨rest, hrest, hstem⟩
    rw [after?_eq_some_iff] at hrest
    rw [← List.reverse_reverse cs, hrest, List.reverse_append, List.reverse_reverse, hstem]
  · intro h
    refine ⟨stem.reverse, ?_, List.reverse_reverse stem⟩
    rw [after?_eq_some_iff, h, List.reverse_append]

theorem before?_eq_none_iff {ending cs : List Char} : before? ending cs = none ↔ ¬ ending <:+ cs := by
  rw [Option.eq_none_iff_forall_ne_some]
  constructor
  · rintro h ⟨stem, hstem⟩
    exact h stem (before?_eq_some_iff.2 hstem.symm)
  · intro h stem hstem
    exact h ⟨stem, (before?_eq_some_iff.1 hstem).symm⟩

theorem before?_concat (c : Char) (ending cs : List Char) :
    before? (ending ++ [c]) (cs ++ [c]) = before? ending cs := by
  refine Option.ext fun stem => ?_
  rw [before?_eq_some_iff, before?_eq_some_iff, ← List.append_assoc, List.append_left_inj]

/-- An ending is looked for behind every character that is not in it. -/
theorem before?_append_cons {ending : List Char} {c : Char} (hc : c ∉ ending) (u v : List Char) :
    before? ending (u ++ c :: v) = (before? ending v).map fun stem => u ++ c :: stem := by
  refine Option.ext fun stem => ?_
  rw [before?_eq_some_iff, Option.map_eq_some_iff]
  constructor
  · intro h
    rcases List.append_eq_append_iff.1 h with ⟨w, rfl, hw⟩ | ⟨w, -, hw⟩
    · rcases List.cons_eq_append_iff.1 hw with ⟨-, hend⟩ | ⟨w', rfl, hv⟩
      · exact absurd (hend ▸ List.mem_cons_self) hc
      · exact ⟨w', before?_eq_some_iff.2 hv, rfl⟩
    · exact absurd (hw ▸ List.mem_append_right w List.mem_cons_self) hc
  · intro ⟨w, hw, hstem⟩
    rw [before?_eq_some_iff] at hw
    rw [← hstem, hw, List.append_assoc, List.cons_append]

/-! ## Splitting -/

theorem splitOn_ne_nil (sep : Char) (cs : List Char) : splitOn sep cs ≠ [] := by
  cases cs with
  | nil => simp [splitOn]
  | cons c cs =>
      rw [splitOn]
      split
      · simp
      · split <;> simp

theorem splitOn_append (sep : Char) (u v : List Char) :
    splitOn sep (u ++ sep :: v) = splitOn sep u ++ splitOn sep v := by
  induction u with
  | nil => simp [splitOn]
  | cons c u ih =>
      rw [List.cons_append, splitOn, splitOn, ih]
      split
      · rfl
      · cases h : splitOn sep u with
        | nil => exact absurd h (splitOn_ne_nil sep u)
        | cons part parts => rfl

theorem splitOn_of_not_mem {sep : Char} {cs : List Char} (h : sep ∉ cs) : splitOn sep cs = [cs] := by
  induction cs with
  | nil => rfl
  | cons c cs ih =>
      rw [List.mem_cons, not_or] at h
      rw [splitOn, if_neg (Ne.symm h.1), ih h.2]

theorem mem_of_mem_splitOn {sep c : Char} {cs part : List Char} (hpart : part ∈ splitOn sep cs) (hc : c ∈ part) :
    c ∈ cs := by
  induction cs generalizing part with
  | nil =>
      rw [splitOn, List.mem_singleton] at hpart
      exact hpart ▸ hc
  | cons d cs ih =>
      rw [splitOn] at hpart
      split at hpart
      · rcases List.mem_cons.1 hpart with rfl | hpart
        · exact absurd hc List.not_mem_nil
        · exact List.mem_cons_of_mem _ (ih hpart hc)
      · split at hpart
        · next h => exact absurd h (splitOn_ne_nil sep cs)
        · next first rest h =>
            rcases List.mem_cons.1 hpart with rfl | hpart
            · rcases List.mem_cons.1 hc with rfl | hc
              · exact List.mem_cons_self
              · exact List.mem_cons_of_mem _ (ih (h ▸ List.mem_cons_self) hc)
            · exact List.mem_cons_of_mem _ (ih (h ▸ List.mem_cons_of_mem _ hpart) hc)

/-- The parts of a text hold all of it but the separators. -/
theorem flatten_splitOn (sep : Char) (cs : List Char) : (splitOn sep cs).flatten = cs.filter (· ≠ sep) := by
  induction cs with
  | nil => rfl
  | cons c cs ih =>
      rw [splitOn]
      split
      · next h => simp [ih, h]
      · next h =>
          cases hsplit : splitOn sep cs with
          | nil => exact absurd hsplit (splitOn_ne_nil sep cs)
          | cons part parts =>
              rw [hsplit, List.flatten_cons] at ih
              rw [List.flatten_cons, List.cons_append, ih, List.filter_cons_of_pos (by simpa using h)]

/-- Where a character is put before the left part, there was a left part without it. -/
theorem exists_of_map_cons {parts : Option (List Char × List Char)} {c : Char} {left right : List Char}
    (h : parts.map (fun p => (c :: p.1, p.2)) = some (left, right)) :
    ∃ rest, parts = some (rest, right) ∧ left = c :: rest := by
  obtain ⟨⟨rest, following⟩, hparts, heq⟩ := Option.map_eq_some_iff.1 h
  obtain ⟨hleft, rfl⟩ := Prod.mk.inj heq
  exact ⟨rest, hparts, hleft.symm⟩

theorem splitFirst?_append {mark : Char} {left : List Char} (h : mark ∉ left) (right : List Char) :
    splitFirst? mark (left ++ mark :: right) = some (left, right) := by
  induction left with
  | nil => simp [splitFirst?]
  | cons c rest ih =>
      rw [List.mem_cons, not_or] at h
      rw [List.cons_append, splitFirst?, if_neg fun heq => h.1 heq.symm, ih h.2]
      rfl

theorem splitLast?_append {mark : Char} {right : List Char} (h : mark ∉ right) (left : List Char) :
    splitLast? mark (left ++ mark :: right) = some (left, right) := by
  have hreverse : (left ++ mark :: right).reverse = right.reverse ++ mark :: left.reverse := by simp
  rw [splitLast?, hreverse, splitFirst?_append (by simpa using h)]
  simp

/-! ## Joining -/

theorem joinWith_cons_cons (sep : Char) (part next : List Char) (parts : List (List Char)) :
    joinWith [sep] (part :: next :: parts) = part ++ sep :: joinWith [sep] (next :: parts) := by
  simp [joinWith, List.intercalate]

/-- The first of several parts, and the others each behind a separator. -/
theorem joinWith_cons_flatMap (sep part : List Char) (parts : List (List Char)) :
    joinWith sep (part :: parts) = part ++ parts.flatMap (sep ++ ·) := by
  induction parts generalizing part with
  | nil => simp [joinWith]
  | cons next parts ih =>
      have hnext : joinWith sep (part :: next :: parts) = part ++ (sep ++ joinWith sep (next :: parts)) := by
        simp [joinWith, List.intercalate]
      rw [hnext, ih, List.flatMap_cons, List.append_assoc]

theorem joinWith_cons (sep : Char) (part : List Char) (parts : List (List Char)) :
    joinWith [sep] (part :: parts) = part ++ parts.flatMap (sep :: ·) :=
  joinWith_cons_flatMap [sep] part parts

theorem splitOn_joinWith {sep : Char} {part : List Char} {parts : List (List Char)} (h : ∀ p ∈ part :: parts, sep ∉ p) :
    splitOn sep (joinWith [sep] (part :: parts)) = part :: parts := by
  induction parts generalizing part with
  | nil =>
      rw [joinWith, List.intercalate_singleton]
      exact splitOn_of_not_mem (h part List.mem_cons_self)
  | cons next parts ih =>
      obtain ⟨hpart, hparts⟩ := List.forall_mem_cons.1 h
      rw [joinWith_cons_cons, splitOn_append, splitOn_of_not_mem hpart, ih hparts, List.singleton_append]

/-! ## Runs -/

section

variable {p : Char → Bool} {u v : List Char}

theorem takeWhile_append_stop (hu : ∀ c ∈ u, p c = true) (hv : ∀ c ∈ v.head?, p c = false) : (u ++ v).takeWhile p = u := by
  rw [List.takeWhile_append_of_pos hu]
  cases v with
  | nil => simp
  | cons c v => rw [List.takeWhile_cons_of_neg (by simp [hv c rfl]), List.append_nil]

theorem dropWhile_append_stop (hu : ∀ c ∈ u, p c = true) (hv : ∀ c ∈ v.head?, p c = false) : (u ++ v).dropWhile p = v := by
  rw [List.dropWhile_append_of_pos hu]
  cases v with
  | nil => rfl
  | cons c v => rw [List.dropWhile_cons_of_neg (by simp [hv c rfl])]

end

theorem takeWhile_append_cons {p : Char → Bool} {c : Char} (hc : p c = false) (u v : List Char) :
    (u ++ c :: v).takeWhile p = u.takeWhile p := by
  induction u with
  | nil => rw [List.nil_append, List.takeWhile_cons_of_neg (by simp [hc]), List.takeWhile_nil]
  | cons d u ih => rw [List.cons_append, List.takeWhile_cons, List.takeWhile_cons, ih]

/-! ## Blanks -/

theorem trimStart_append {blanks cs : List Char} (hblanks : ∀ c ∈ blanks, isBlank c = true)
    (hcs : ∀ c ∈ cs.head?, isBlank c = false) : trimStart (blanks ++ cs) = cs :=
  dropWhile_append_stop hblanks hcs

theorem trimEnd_of_getLast {cs : List Char} (h : ∀ c ∈ cs.getLast?, isBlank c = false) : trimEnd cs = cs := by
  rw [trimEnd, dropEndWhile]
  have hstart : trimStart ([] ++ cs.reverse) = cs.reverse := trimStart_append (by simp) (by simpa using h)
  rw [← trimStart, ← List.nil_append cs.reverse, hstart, List.reverse_reverse]

/-- Blanks are trimmed behind the last character that is none. -/
theorem trimEnd_append {u : List Char} {c : Char} (hc : isBlank c = false) (v : List Char) :
    trimEnd (u ++ c :: v) = u ++ c :: trimEnd v := by
  have hrest : (c :: u.reverse).dropWhile isBlank = c :: u.reverse := List.dropWhile_cons_of_neg (by simp [hc])
  rw [trimEnd, dropEndWhile, List.reverse_append, List.reverse_cons, List.append_assoc, List.singleton_append,
    List.dropWhile_append, hrest, trimEnd, dropEndWhile]
  split
  · next h => simp [List.isEmpty_iff.1 h]
  · simp

/-- Blanks are trimmed before the first character that is none. -/
theorem trimStart_append_cons {c : Char} (hc : isBlank c = false) (u v : List Char) :
    trimStart (u ++ c :: v) = trimStart u ++ c :: v := by
  have hrest : (c :: v).dropWhile isBlank = c :: v := List.dropWhile_cons_of_neg (by simp [hc])
  rw [trimStart, List.dropWhile_append, hrest, trimStart]
  split
  · next h => rw [List.isEmpty_iff.1 h, List.nil_append]
  · rfl

theorem trimEnd_concat {c : Char} (hc : isBlank c = true) (cs : List Char) : trimEnd (cs ++ [c]) = trimEnd cs := by
  rw [trimEnd, dropEndWhile, List.reverse_concat, List.dropWhile_cons_of_pos hc, trimEnd, dropEndWhile]

theorem trim_concat {c : Char} (hc : isBlank c = true) (cs : List Char) : trim (cs ++ [c]) = trim cs := by
  rw [trim, trim, trimStart, List.dropWhile_append, ← trimStart]
  split
  · next h => rw [List.isEmpty_iff.1 h, List.dropWhile_cons_of_pos hc, List.dropWhile_nil]
  · exact trimEnd_concat hc _

/-- A text that starts and ends with no blank is what is left of it with blanks before it. -/
theorem trim_append {blanks cs : List Char} (hblanks : ∀ c ∈ blanks, isBlank c = true)
    (hfirst : ∀ c ∈ cs.head?, isBlank c = false) (hlast : ∀ c ∈ cs.getLast?, isBlank c = false) :
    trim (blanks ++ cs) = cs := by
  rw [trim, trimStart_append hblanks hfirst, trimEnd_of_getLast hlast]

theorem trim_eq_self {cs : List Char} (hfirst : ∀ c ∈ cs.head?, isBlank c = false)
    (hlast : ∀ c ∈ cs.getLast?, isBlank c = false) : trim cs = cs := by
  have htrim := trim_append (List.forall_mem_nil _) hfirst hlast
  rwa [List.nil_append] at htrim

theorem trim_cons_blank {c : Char} {cs : List Char} (hc : isBlank c = true) (hfirst : ∀ d ∈ cs.head?, isBlank d = false)
    (hlast : ∀ d ∈ cs.getLast?, isBlank d = false) : trim (c :: cs) = cs := by
  have hblanks : ∀ d ∈ [c], isBlank d = true := by simpa using hc
  exact trim_append hblanks hfirst hlast

theorem trim_of_blank {cs : List Char} (h : ∀ c ∈ cs, isBlank c = true) : trim cs = [] := by
  have hnone : ∀ c ∈ ([] : List Char).head?, isBlank c = false := by simp
  rw [← List.append_nil cs, trim_append h hnone (by simp)]

/-! ## Lines -/

/-- A line that a line feed ends. -/
theorem lines_append {line : List Char} (h : '\n' ∉ line) (rest : List Char) :
    lines (line ++ '\n' :: rest) = dropReturn line :: lines rest := by
  rw [lines, splitOn_append, splitOn_of_not_mem h, lines]
  cases hrest : splitOn '\n' rest with
  | nil => exact absurd hrest (splitOn_ne_nil _ _)
  | cons part parts => rfl

theorem linesOf_append (parts : List (List Char)) {rest : List (List Char)} (h : rest ≠ []) :
    linesOf (parts ++ rest) = parts.map dropReturn ++ linesOf rest := by
  induction parts with
  | nil => rfl
  | cons part parts ih =>
      obtain ⟨next, more, hnext⟩ := List.exists_cons_of_ne_nil (List.append_ne_nil_of_right_ne_nil parts h)
      rw [List.cons_append, hnext]
      change dropReturn part :: linesOf (next :: more) = _
      rw [← hnext, ih, List.map_cons, List.cons_append]

/-- Whole lines are read before what follows them. -/
theorem lines_append_of_whole {whole : List Char} (h : whole = [] ∨ whole.getLast? = some '\n') (rest : List Char) :
    lines (whole ++ rest) = lines whole ++ lines rest := by
  have hfeed : ∀ u v : List Char, lines (u ++ '\n' :: v) = (splitOn '\n' u).map dropReturn ++ lines v := fun u v => by
    rw [lines, splitOn_append, linesOf_append _ (splitOn_ne_nil _ _), lines]
  rcases h with rfl | h
  · rfl
  · obtain ⟨u, rfl⟩ := List.getLast?_eq_some_iff.1 h
    rw [List.append_assoc, List.singleton_append, hfeed, hfeed]
    simp [lines, splitOn, linesOf]

theorem dropReturn_of_getLast {line : List Char} (h : line.getLast? ≠ some '\r') : dropReturn line = line := by
  unfold dropReturn
  split
  · next hlast => exact absurd hlast h
  · rfl

theorem dropReturn_concat (line : List Char) : dropReturn (line ++ ['\r']) = line := by
  simp only [dropReturn, List.getLast?_concat, List.dropLast_concat]

/-- Lines that a line feed ends are read again. -/
theorem lines_flatMap (ls : List (List Char)) (h : ∀ line ∈ ls, '\n' ∉ line ∧ '\r' ∉ line) :
    lines (ls.flatMap (· ++ ['\n'])) = ls := by
  induction ls with
  | nil => rfl
  | cons line rest ih =>
      obtain ⟨⟨hfeed, hreturn⟩, hrest⟩ := List.forall_mem_cons.1 h
      rw [List.flatMap_cons, List.append_assoc, List.singleton_append, lines_append hfeed, ih hrest,
        dropReturn_of_getLast fun hlast => hreturn (List.mem_of_getLast? hlast)]

theorem linesOf_eq_or (ls : List (List Char)) (h : ∀ line ∈ ls, '\r' ∉ line) : linesOf ls = ls ∨ ls = linesOf ls ++ [[]] := by
  induction ls with
  | nil => exact Or.inl rfl
  | cons line rest ih =>
      obtain ⟨hline, hrest⟩ := List.forall_mem_cons.1 h
      cases rest with
      | nil =>
          cases line with
          | nil => exact Or.inr rfl
          | cons c line => exact Or.inl rfl
      | cons next rest =>
          have hlines : linesOf (line :: next :: rest) = line :: linesOf (next :: rest) := by
            rw [linesOf, dropReturn_of_getLast fun hlast => hline (List.mem_of_getLast? hlast)]
            simp
          rw [hlines]
          rcases ih hrest with heq | heq
          · exact Or.inl (congrArg (line :: ·) heq)
          · exact Or.inr (congrArg (line :: ·) heq)

/-- Lines that were joined are read again, but for an empty one at the end. -/
theorem lines_joinWith (ls : List (List Char)) (h : ∀ line ∈ ls, '\n' ∉ line ∧ '\r' ∉ line) :
    lines (joinWith ['\n'] ls) = ls ∨ ls = lines (joinWith ['\n'] ls) ++ [[]] := by
  cases ls with
  | nil => exact Or.inl rfl
  | cons line rest =>
      rw [lines, splitOn_joinWith fun line hline => (h line hline).1]
      exact linesOf_eq_or _ fun line hline => (h line hline).2

end CodeAtlas.Text
