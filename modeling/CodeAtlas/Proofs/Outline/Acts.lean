import CodeAtlas.Proofs.Outline.Reading
/-!
# What the reader does to a line

While a line is read, frames are opened and closed and declarations are added, and all of this in that line. A heading
is the first thing of its line: what was read before it was read in earlier lines (`heading_of_leads`). So a property of
readings that each of these acts keeps, from one line to the next, is kept by whatever is read (`Upheld.foldl`).
-/

namespace CodeAtlas.Outline

open CodeAtlas.Text

/-- A line that starts with `end` is no heading. -/
theorem heading_of_leads {raw : List Char} (h : firstWord (blankStrings raw) = "end".toList) :
    Heading.ofLine? raw (blankStrings raw) = none := by
  cases raw with
  | nil => rfl
  | cons c cs =>
      have hcode : blankStrings (c :: cs) = c :: blankFrom (Scan.step {} c) cs := rfl
      rw [hcode] at h ⊢
      obtain rfl : c = 'e' := by
        rw [firstWord, List.takeWhile_cons] at h
        split at h
        · exact (List.cons.inj h).1
        · exact absurd h (by simp)
      rfl

@[simp] theorem Progress.lines_step (p : Progress) (text : List Char) : (p.step text).lines = p.lines + 1 := by
  rw [step]
  dsimp only
  split
  · split <;> rfl
  · split
    · rfl
    · split
      · split <;> rfl
      · unfold plainLine
        split
        · rfl
        · dsimp only
          split <;> rfl

theorem Progress.lines_foldl (p : Progress) (texts : List (List Char)) :
    (texts.foldl step p).lines = p.lines + texts.length := by
  induction texts generalizing p with
  | nil => rfl
  | cons text rest ih => rw [List.foldl_cons, ih, lines_step, List.length_cons, Nat.add_assoc, Nat.add_comm 1]

namespace Reading

theorem map_setVisibility (v : Visibility) (stack : List Frame) :
    (setVisibility v stack).map (fun f => (f.kind, f.declaration)) = stack.map fun f => (f.kind, f.declaration) := by
  induction stack with
  | nil => rfl
  | cons frame rest ih =>
      rw [setVisibility]
      split
      · rfl
      · rw [List.map_cons, ih, List.map_cons]

theorem stack_popMany (r : Reading) (line n : Nat) : (r.popMany line n).stack = r.stack.drop n := by
  induction n generalizing r with
  | zero => rfl
  | succ n ih => rw [popMany, ih, stack_pop, List.drop_tail]

/-- A property of readings after a number of lines that depends on declarations and frames only, and that all acts of
the reader in lines after `start` keep. -/
structure Upheld (start : Nat) (I : Nat → Reading → Prop) : Prop where
  later : ∀ {r : Reading} {n : Nat}, start ≤ n → I n r → I (n + 1) r
  congr : ∀ {r r' : Reading} {n : Nat}, I n r → r'.outline.declarations = r.outline.declarations →
    r'.stack.map (fun f => (f.kind, f.declaration)) = r.stack.map (fun f => (f.kind, f.declaration)) → I n r'
  pop : ∀ {r : Reading} {n : Nat}, start < n → I n r → I n (r.pop n)
  pushBlock : ∀ {r : Reading} {n : Nat}, start < n → I n r → I n r.pushBlock
  heading : ∀ {r : Reading} {raw code : List Char} {h : Heading} {n : Nat} (documentation : Option String), start ≤ n →
    Heading.ofLine? raw code = some h → I n r → I (n + 1) (r.heading raw (n + 1) documentation h)
  declareLine : ∀ {r : Reading} {n : Nat} (kind : SymbolKind) (name : String) (raw : List Char)
    (documentation : Option String) (v : Visibility), start < n → kind.isProjected = false → I n r →
      I n (r.declareLine kind name raw n documentation v)

namespace Upheld

variable {start : Nat} {I : Nat → Reading → Prop} {r : Reading} {raw code : List Char} {n : Nat}
  {documentation : Option String}

theorem pushBlocks (h : Upheld start I) (hn : start < n) (hr : I n r) (count : Nat) : I n (r.pushBlocks count) := by
  induction count generalizing r with
  | zero => exact hr
  | succ count ih => exact ih (h.pushBlock hn hr)

theorem popMany (h : Upheld start I) (hn : start < n) (hr : I n r) (count : Nat) : I n (r.popMany n count) := by
  induction count generalizing r with
  | zero => exact hr
  | succ count ih => exact ih (h.pop hn hr)

theorem accessors (h : Upheld start I) (hn : start < n) (hr : I n r) (names : List String) (v : Visibility) :
    I n (names.foldl (fun r' name => r'.declareLine .accessor name raw n documentation v) r) := by
  induction names generalizing r with
  | nil => exact hr
  | cons name rest ih => exact ih (h.declareLine _ name raw documentation v hn rfl hr)

theorem body (h : Upheld start I) (hn : start < n) (hr : I n r) (b : Body) : I n (r.body raw n documentation b) := by
  cases b with
  | visibility v => exact h.congr hr rfl (map_setVisibility v r.stack)
  | association word rest =>
      rw [Reading.body, associate]
      split
      · exact hr
      · exact h.congr (h.declareLine _ _ _ _ _ hn rfl hr) rfl rfl
  | scope name => exact h.declareLine _ _ _ _ _ hn rfl hr
  | accessors rest => exact h.accessors hn hr _ _
  | attributeNamed name => exact h.declareLine _ _ _ _ _ hn rfl hr
  | constant name => exact h.declareLine _ _ _ _ _ hn rfl hr
  | mixin extend rest =>
      rw [Reading.body]
      dsimp only
      split
      · exact h.congr hr rfl rfl
      · exact h.congr hr rfl rfl
  | require relative target =>
      rw [Reading.body]
      dsimp only
      split
      · exact h.congr hr rfl rfl
      · exact h.congr hr rfl rfl

/-- A line that is a heading must find what was read in the lines before it. -/
theorem content (h : Upheld start I) (hn : start ≤ n) (hr : I (n + 1) r)
    (hbefore : (Heading.ofLine? raw code).isSome = true → I n r) : I (n + 1) (r.content raw code (n + 1) documentation) := by
  have hlt : start < n + 1 := Nat.lt_succ_of_le hn
  have hblock : I (n + 1) (if opensBlock code then r.pushBlock else r) := by
    split
    · exact h.pushBlock hlt hr
    · exact hr
  unfold Reading.content
  split
  next heading hline => exact h.heading documentation hn hline (hbefore (by rw [hline]; rfl))
  next =>
    split
    · exact hblock
    · split
      · exact h.body hlt hr _
      · exact hblock

theorem codeLine (h : Upheld start I) (hn : start ≤ n) (hr : I n r) :
    I (n + 1) (r.codeLine raw (n + 1) documentation) := by
  have hlt : start < n + 1 := Nat.lt_succ_of_le hn
  unfold Reading.codeLine
  dsimp only
  refine h.popMany hlt ?_ _
  have hcontent : ∀ leads : Bool, (leads = true → firstWord (blankStrings raw) = "end".toList) →
      I (n + 1) (Reading.content (if leads then r.pop (n + 1) else r) raw (blankStrings raw) (n + 1) documentation) := by
    intro leads hleads
    cases leads with
    | true =>
        refine h.content hn (h.pop hlt (h.later hn hr)) ?_
        rw [heading_of_leads (hleads rfl)]
        simp
    | false => exact h.content hn (h.later hn hr) fun _ => hr
  have hread := hcontent (firstWord (blankStrings raw) = "end".toList && 0 < countWord "end" (blankStrings raw))
    fun hleads => by simpa using (Bool.and_eq_true_iff.1 hleads).1
  split
  · exact hread
  · exact h.pushBlocks hlt hread _

theorem step (h : Upheld start I) {p : Progress} (hn : start ≤ p.lines) (hp : I p.lines p.reading) (text : List Char) :
    I (p.step text).lines (p.step text).reading := by
  rw [Progress.lines_step, Progress.step]
  have hlater := h.later hn hp
  dsimp only
  split
  · split <;> exact hlater
  · split
    · exact hlater
    · split
      · split <;> exact hlater
      · unfold Progress.plainLine
        split
        · exact hlater
        · dsimp only
          split
          · exact hlater
          · exact h.codeLine hn hp

theorem foldl (h : Upheld start I) {p : Progress} (hn : start ≤ p.lines) (hp : I p.lines p.reading)
    (texts : List (List Char)) : I (texts.foldl Progress.step p).lines (texts.foldl Progress.step p).reading := by
  induction texts generalizing p with
  | nil => exact hp
  | cons text rest ih => exact ih (by rw [Progress.lines_step]; omega) (h.step hn hp text)

/-- At the end of the text every frame is popped. -/
theorem finish (h : Upheld start I) {p : Progress} (hn : start < p.lines) (hp : I p.lines p.reading) :
    ∃ r : Reading, I p.lines r ∧ r.stack = [] ∧ p.finish.declarations = r.outline.declarations := by
  refine ⟨p.reading.popMany p.lines p.reading.stack.length, h.popMany hn hp _, ?_, rfl⟩
  rw [stack_popMany, List.drop_length]

/-- The declarations of a text are those of a reading with the property in which nothing is open. -/
theorem ofSource (h : Upheld 0 I) (hempty : I 0 {}) (source : String) :
    ∃ r : Reading, I (lines source.toList).length r ∧ r.stack = [] ∧
      (ofSource source).declarations = r.outline.declarations := by
  rcases Nat.eq_zero_or_pos (lines source.toList).length with hzero | hpos
  · rw [hzero, Outline.ofSource, List.length_eq_zero_iff.1 hzero]
    exact ⟨{}, hempty, rfl, rfl⟩
  · have hlines := Progress.lines_foldl {} (lines source.toList)
    rw [show ({} : Progress).lines = 0 from rfl, Nat.zero_add] at hlines
    have hread := h.foldl (p := {}) (Nat.le_refl 0) hempty (lines source.toList)
    obtain ⟨r, hr, hstack, hds⟩ := h.finish (by rw [hlines]; exact hpos) hread
    rw [hlines] at hr
    exact ⟨r, hr, hstack, hds⟩

end Upheld

end Reading

end CodeAtlas.Outline
