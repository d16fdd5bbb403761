import CodeAtlas.Proofs.Outline.Acts
import CodeAtlas.Proofs.Text.Names
import CodeAtlas.Proofs.Text.Parts
/-!
# Reading one line

A line of code is read without its indentation (`Progress.step_code`), and a blank line says nothing
(`Progress.step_blank`). Keywords are counted run by run: a run of name characters counts as a keyword only if it is that
keyword as a whole (`countFrom_run`).
-/

namespace CodeAtlas

open CodeAtlas.Text

theorem Scan.codePart_of_not_mem {s : Scan} {cs : List Char} (h : '#' ∉ cs) : s.codePart cs = cs := by
  induction cs generalizing s with
  | nil => rfl
  | cons c cs ih =>
      rw [List.mem_cons, not_or] at h
      rw [codePart, if_neg (by simp [Ne.symm h.1]), ih h.2]

theorem Scan.quote_step {s : Scan} (hs : s.quote = none) {c : Char} (hc : Scan.isQuote c = false) :
    (s.step c).quote = none := by
  rw [step, hs]
  simp only [hc, Bool.false_eq_true, if_false]
  split
  · rfl
  · split
    · rfl
    · exact hs

namespace Outline

/-! ## Keywords -/

theorem mayPrecede_of_isNameChar {c : Char} (h : isNameChar c = true) : mayPrecede c = false :=
  forall_nameChar (P := fun c => mayPrecede c = false) (by decide) h

theorem mayFollow_of_isNameChar {c : Char} (h : isNameChar c = true) : mayFollow c = false :=
  forall_nameChar (P := fun c => mayFollow c = false) (by decide) h

section

variable {word run rest : List Char}

/-- Where no keyword stands, counting goes on with the next character. -/
theorem countFrom_cons {prev : Option Char} {c : Char} {cs : List Char}
    (h : ∀ tail, c :: cs = word ++ tail → (prev.all mayPrecede && tail.head?.all mayFollow) = false) :
    countFrom word prev (c :: cs) = countFrom word (some c) cs := by
  rw [countFrom]
  cases htail : after? word (c :: cs) with
  | none => simp
  | some tail => simp [h tail (after?_eq_some_iff.1 htail)]

theorem countFrom_of_head (hword : Plain word) (hne : word ≠ []) (hrest : ∀ c ∈ rest.head?, isNameChar c = false)
    (prev : Option Char) : countFrom word prev rest = countFrom word rest.head? rest.tail := by
  cases rest with
  | nil => rfl
  | cons c rest =>
      apply countFrom_cons
      intro tail htail
      cases word with
      | nil => exact absurd rfl hne
      | cons w ws =>
          have hw := hword w List.mem_cons_self
          rw [← (List.cons.inj htail).1, hrest c rfl] at hw
          exact absurd hw (by decide)

theorem countFrom_skip (hword : Plain word) (hne : word ≠ []) {c : Char} (hc : isNameChar c = false) (prev : Option Char) :
    countFrom word prev (c :: rest) = countFrom word (some c) rest :=
  countFrom_of_head hword hne (by simpa using hc) prev

/-- Inside a run no keyword starts. -/
theorem countFrom_inside (hword : Plain word) (hne : word ≠ []) (hrun : Plain run)
    (hrest : ∀ c ∈ rest.head?, isNameChar c = false) {prev : Char} (hprev : mayPrecede prev = false) :
    countFrom word (some prev) (run ++ rest) = countFrom word rest.head? rest.tail := by
  induction run generalizing prev with
  | nil => exact countFrom_of_head hword hne hrest _
  | cons c run ih =>
      obtain ⟨hc, hrun⟩ := List.forall_mem_cons.1 hrun
      rw [List.cons_append, countFrom_cons fun tail _ => by simp [hprev]]
      exact ih hrun (mayPrecede_of_isNameChar hc)

/-- A run is counted only if it is the keyword as a whole, and what follows it may follow a keyword. -/
theorem countFrom_run (hword : Plain word) (hne : word ≠ []) (hrun : Plain run)
    (hrest : ∀ c ∈ rest.head?, isNameChar c = false) (h : run = word → rest.head?.all mayFollow = false)
    (prev : Option Char) : countFrom word prev (run ++ rest) = countFrom word rest.head? rest.tail := by
  cases run with
  | nil => exact countFrom_of_head hword hne hrest prev
  | cons c run =>
      obtain ⟨hc, hrun'⟩ := List.forall_mem_cons.1 hrun
      rw [List.cons_append, countFrom_cons, countFrom_inside hword hne hrun' hrest (mayPrecede_of_isNameChar hc)]
      intro tail htail
      rw [← List.cons_append] at htail
      rw [Bool.and_eq_false_iff]
      right
      -- the keyword cannot reach into `rest`, so it is the run or a beginning of it
      rcases List.append_eq_append_iff.1 htail with ⟨more, hmore, hrest'⟩ | ⟨more, hmore, htail'⟩
      · cases more with
        | nil =>
            rw [List.append_nil] at hmore
            rw [List.nil_append] at hrest'
            exact hrest' ▸ h hmore.symm
        | cons d more =>
            have hd : isNameChar d = true := hword d (by simp [hmore])
            rw [hrest d (by simp [hrest'])] at hd
            exact absurd hd (by decide)
      · cases more with
        | nil =>
            rw [List.append_nil] at hmore
            rw [List.nil_append] at htail'
            exact htail' ▸ h hmore
        | cons d more =>
            have hd : isNameChar d = true := hrun d (by simp [hmore])
            simp [htail', mayFollow_of_isNameChar hd]

/-- A run that is no keyword, and a character behind it that belongs to no name. -/
theorem countFrom_run_cons (hword : Plain word) (hne : word ≠ []) (hrun : Plain run) (h : run ≠ word) {c : Char}
    (hc : isNameChar c = false) (prev : Option Char) :
    countFrom word prev (run ++ c :: rest) = countFrom word (some c) rest :=
  countFrom_run hword hne hrun (by simpa using hc) (fun heq => absurd heq h) prev

theorem countFrom_run_nil (hword : Plain word) (hne : word ≠ []) (hrun : Plain run) (h : run ≠ word) (prev : Option Char) :
    countFrom word prev run = 0 := by
  have hrest : ∀ c ∈ ([] : List Char).head?, isNameChar c = false := by simp
  have hnil := countFrom_run hword hne hrun hrest (fun heq => absurd heq h) prev
  rwa [List.append_nil] at hnil

theorem firstWord_run (hrun : Plain run) (hrest : ∀ c ∈ rest.head?, (isAlphanumeric c || c == '_') = false) :
    firstWord (run ++ rest) = run :=
  takeWhile_append_stop (fun c hc => isAlphanumeric_of_isNameChar (hrun c hc)) hrest

end

/-- Outside of strings everything is kept. -/
theorem blankFrom_cons {s : Scan} (hs : s.quote = none) (c : Char) (cs : List Char) :
    blankFrom s (c :: cs) = c :: blankFrom (s.step c) cs := by
  rw [blankFrom]
  simp [hs]

theorem blankFrom_of_forall {s : Scan} (hs : s.quote = none) {cs : List Char} (h : ∀ c ∈ cs, Scan.isQuote c = false) :
    blankFrom s cs = cs := by
  induction cs generalizing s with
  | nil => rfl
  | cons c cs ih =>
      obtain ⟨hc, hcs⟩ := List.forall_mem_cons.1 h
      rw [blankFrom_cons hs, ih (Scan.quote_step hs hc) hcs]

theorem blankStrings_of_forall {cs : List Char} (h : ∀ c ∈ cs, Scan.isQuote c = false) : blankStrings cs = cs :=
  blankFrom_of_forall rfl h

theorem afterWordBlanks?_append (word : String) (rest : List Char) :
    afterWordBlanks? word (word.toList ++ ' ' :: rest) = some (trimStart rest) := by
  rw [afterWordBlanks?, after?_append]
  rfl

/-- A word that is followed by neither a character of names nor a blank is no word of a heading. -/
theorem afterWordBlanks?_run {word : String} (hword : Plain word.toList) {run rest : List Char} (hrun : Plain run) {c : Char}
    (hname : isNameChar c = false) (hblank : isBlank c = false) : afterWordBlanks? word (run ++ c :: rest) = none := by
  rw [afterWordBlanks?, Option.bind_eq_none_iff]
  intro tail htail
  rw [after?_eq_some_iff] at htail
  have hhead : ∃ d ds, tail = d :: ds ∧ isBlank d = false := by
    rcases List.append_eq_append_iff.1 htail with ⟨more, hmore, htail'⟩ | ⟨more, hmore, htail'⟩
    · cases more with
      | nil => exact ⟨c, rest, htail'.symm, hblank⟩
      | cons d more =>
          have hd : isNameChar d = true := hword d (by simp [hmore])
          rw [← (List.cons.inj htail').1, hname] at hd
          exact absurd hd (by decide)
    · cases more with
      | nil => exact ⟨c, rest, htail', hblank⟩
      | cons d more => exact ⟨d, more ++ c :: rest, htail', isBlank_of_isNameChar (hrun d (by simp [hmore]))⟩
  obtain ⟨d, ds, rfl, hd⟩ := hhead
  rw [afterBlanks?, if_neg (by simp [hd])]

theorem assignsFrom_of_not_mem {prev : Option Char} {cs : List Char} (h : '=' ∉ cs) : assignsFrom prev cs = false := by
  induction cs generalizing prev with
  | nil => rfl
  | cons c cs ih =>
      rw [List.mem_cons, not_or] at h
      rw [assignsFrom, ih h.2]
      simp [Ne.symm h.1]

namespace Reading

variable {r : Reading} {raw : List Char} {line : Nat} {documentation : Option String}

/-- A line without strings that does not start with `end` opens what it declares and a block for every `do`, and closes a
frame for every `end`. -/
theorem codeLine_of_first (hcode : blankStrings raw = raw) (hleads : firstWord raw ≠ "end".toList ∨ countWord "end" raw = 0) :
    r.codeLine raw line documentation =
      (if loopWords.contains (firstWord raw) then r.content raw raw line documentation
        else (r.content raw raw line documentation).pushBlocks (countWord "do" raw)).popMany line (countWord "end" raw) := by
  have hnot : (decide (firstWord raw = "end".toList) && decide (0 < countWord "end" raw)) = false := by
    rcases hleads with hfirst | hend
    · rw [decide_eq_false hfirst, Bool.false_and]
    · simp [hend]
  unfold codeLine
  simp only [hcode, hnot, Bool.false_eq_true, if_false]

/-- A line without strings that closes nothing opens what it declares, and a block for every `do`. -/
theorem codeLine_of_no_end (hcode : blankStrings raw = raw) (hend : countWord "end" raw = 0) :
    r.codeLine raw line documentation =
      if loopWords.contains (firstWord raw) then r.content raw raw line documentation
      else (r.content raw raw line documentation).pushBlocks (countWord "do" raw) := by
  rw [codeLine_of_first hcode (Or.inr hend), hend]
  rfl

theorem codeLine_of_silent (hcode : blankStrings raw = raw) (hend : countWord "end" raw = 0) (hdo : countWord "do" raw = 0) :
    r.codeLine raw line documentation = r.content raw raw line documentation := by
  rw [codeLine_of_no_end hcode hend, hdo]
  exact ite_self _

end Reading

/-- A line with nothing but `end` on it closes the innermost frame. -/
theorem Reading.codeLine_end (r : Reading) (line : Nat) (documentation : Option String) :
    r.codeLine "end".toList line documentation = r.pop line := by
  have hcontent : ∀ r' : Reading, r'.content "end".toList "end".toList line documentation = r' := by
    intro r'
    rw [content, show Heading.ofLine? "end".toList "end".toList = none by rfl,
      show Body.ofLine? "end".toList "end".toList = none by decide, show opensBlock "end".toList = false by decide]
    dsimp only
    split <;> rfl
  unfold codeLine
  dsimp only
  rw [show blankStrings "end".toList = "end".toList by rfl, show firstWord "end".toList = "end".toList by decide,
    show countWord "end" "end".toList = 1 by decide, show countWord "do" "end".toList = 0 by decide, hcontent]
  rfl

/-! ## Lines -/

theorem heredoc?_append {u : List Char} (hu : '<' ∉ u) (v : List Char) : heredoc? (u ++ v) = heredoc? v := by
  induction u with
  | nil => rfl
  | cons c u ih =>
      rw [List.mem_cons, not_or] at hu
      have hhere : heredocHere? (c :: (u ++ v)) = none := by
        rw [heredocHere?, after?, if_neg hu.1]
        rfl
      rw [List.cons_append, heredoc?, hhere, ih hu.2, Option.none_or]

theorem heredoc?_of_not_mem {cs : List Char} (h : '<' ∉ cs) : heredoc? cs = none := by
  have hnil := heredoc?_append h []
  rwa [List.append_nil] at hnil

/-- A line of code without its indentation: it starts and ends with no blank, and holds no comment. -/
structure CodeText (raw : List Char) : Prop where
  head : ∃ c cs, raw = c :: cs ∧ isBlank c = false ∧ c ≠ '='
  last : ∀ c ∈ raw.getLast?, isBlank c = false
  comment : '#' ∉ raw

namespace Progress

variable {p : Progress} {indent raw text : List Char}

theorem not_startsWith_begin (htext : ∀ c ∈ text.head?, c ≠ '=') : startsWith "=begin".toList text = false := by
  cases text with
  | nil => rfl
  | cons c text =>
      have hne : ('=' == c) = false := by simpa using Ne.symm (htext c rfl)
      change ('=' == c && _) = false
      rw [hne, Bool.false_and]

/-- Outside of comment blocks and text blocks a line is read as it stands. -/
theorem step_of_head (hcomment : p.inComment = false) (hheredoc : p.heredoc = none) (htext : ∀ c ∈ text.head?, c ≠ '=') :
    p.step text = { p with lines := p.lines + 1 }.plainLine text (p.lines + 1) := by
  rw [step]
  dsimp only
  rw [not_startsWith_begin htext, hheredoc, hcomment]
  rfl

theorem head_ne_of_indent (hindent : ∀ c ∈ indent, isBlank c = true) {x : Char} (hx : isBlank x = false)
    (htext : ∀ c ∈ text.head?, c ≠ x) : ∀ c ∈ (indent ++ text).head?, c ≠ x := by
  cases indent with
  | nil => exact htext
  | cons d indent =>
      rintro c ⟨⟩ rfl
      exact absurd (hindent d List.mem_cons_self) (by simp [hx])

theorem step_code (hcomment : p.inComment = false) (hheredoc : p.heredoc = none) (hindent : ∀ c ∈ indent, isBlank c = true)
    (hraw : CodeText raw) :
    p.step (indent ++ raw) =
      { p with
        reading := p.reading.codeLine raw (p.lines + 1) p.documentation
        comments := []
        heredoc := heredoc? raw
        lines := p.lines + 1 } := by
  obtain ⟨c, cs, hhead, hblank, hequals⟩ := hraw.head
  have hfirst : ∀ d ∈ raw.head?, isBlank d = false := by simpa [hhead] using hblank
  have hsign : c ≠ '#' := by
    rintro rfl
    exact hraw.comment (by simp [hhead])
  have htrim : trim (indent ++ raw) = raw := trim_append hindent hfirst hraw.last
  have hcode : trimEnd (Scan.withoutComment raw) = raw := by
    rw [Scan.withoutComment, Scan.codePart_of_not_mem hraw.comment, trimEnd_of_getLast hraw.last]
  rw [step_of_head hcomment hheredoc (head_ne_of_indent hindent (by decide) (by simpa [hhead] using hequals)), plainLine, htrim]
  split
  · exact absurd (List.cons.inj hhead).1.symm hsign
  · rw [hcode, if_neg (by simp [hhead])]
    rfl

theorem step_blank (hcomment : p.inComment = false) (hheredoc : p.heredoc = none) (htext : ∀ c ∈ text, isBlank c = true) :
    p.step text = { p with comments := [], lines := p.lines + 1 } := by
  have hhead : ∀ c ∈ text.head?, c ≠ '=' := by
    rintro c hc rfl
    exact absurd (htext '=' (List.mem_of_mem_head? hc)) (by decide)
  rw [step_of_head hcomment hheredoc hhead, plainLine, trim_of_blank htext]
  rfl

end Progress

end Outline

end CodeAtlas
