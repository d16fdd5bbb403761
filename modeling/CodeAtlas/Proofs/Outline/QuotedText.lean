import CodeAtlas.Proofs.Outline.Blanking
import CodeAtlas.Proofs.Outline.Closing
/-!
# What stands in strings

A line that is read while a method is open, and that is neither a heading nor a comment, is read by what is left of it
without the contents of its strings (`Reading.codeLine_congr`); only the opener of a text block is looked for in strings as
well. A `Gap` is the place of a string in such a line. Its text can be replaced without a change to what is declared where
if and only if that leaves the text block alone that is open after the line (`Gap.unchanged_iff`).
-/

namespace CodeAtlas.Outline

open CodeAtlas.Text

/-! ## Lines in methods -/

/-- Words that lines of headings start with. -/
def headingWords : List String := ["class", "module", "def"] ++ Visibility.all.map Visibility.name

/-- Whether a line starts with such a word as one of its own: a blank follows, or the sign of a class-level part. -/
def startsHeading (cs : List Char) : Bool :=
  headingWords.any fun word => ((after? word.toList cs).bind List.head?).any fun c => isBlank c || c == '<'

section

variable {raw : List Char}

theorem not_append_of_not_startsHeading (h : startsHeading raw = false) {word : String} (hword : word ∈ headingWords) {c : Char}
    (hc : isBlank c = true ∨ c = '<') (rest : List Char) : raw ≠ word.toList ++ c :: rest := by
  rintro rfl
  have hstarts : startsHeading (word.toList ++ c :: rest) = true := by
    refine List.any_eq_true.2 ⟨word, hword, ?_⟩
    rw [after?_append]
    simpa using hc
  exact absurd (hstarts.symm.trans h) (by decide)

theorem afterWordBlanks?_of_not_startsHeading (h : startsHeading raw = false) {word : String} (hword : word ∈ headingWords) :
    afterWordBlanks? word raw = none := by
  rw [afterWordBlanks?, Option.bind_eq_none_iff]
  intro rest hrest
  rw [after?_eq_some_iff] at hrest
  cases rest with
  | nil => rfl
  | cons c rest =>
      rw [afterBlanks?, if_neg fun hc => not_append_of_not_startsHeading h hword (Or.inl hc) rest hrest]

theorem exists_of_isSingleton {code : List Char} (h : Heading.isSingleton code = true) :
    ∃ c rest, code = "class".toList ++ c :: rest ∧ (isBlank c = true ∨ c = '<') := by
  unfold Heading.isSingleton at h
  split at h
  next rest hrest =>
    rw [after?_eq_some_iff] at hrest
    split at h
    next following hfollowing =>
      rw [after?_eq_some_iff] at hfollowing
      cases rest with
      | nil => exact absurd hfollowing (by simp [trimStart])
      | cons c rest =>
          refine ⟨c, rest, hrest, ?_⟩
          by_cases hblank : isBlank c = true
          · exact Or.inl hblank
          · rw [trimStart, List.dropWhile_cons_of_neg hblank] at hfollowing
            exact Or.inr (List.cons.inj hfollowing).1
    next => exact absurd h (by decide)
  next => exact absurd h (by decide)

theorem isSingleton_of_not_startsHeading (h : startsHeading raw = false) : Heading.isSingleton (blankStrings raw) = false := by
  by_contra hsingleton
  obtain ⟨c, rest, hcode, hc⟩ := exists_of_isSingleton (Bool.of_not_eq_false hsingleton)
  -- no quote stands before the sign, so the line starts so as written
  have hquote : Scan.isQuote c = false := by
    have hne : ∀ q, isBlank q = false → q ≠ '<' → c ≠ q := by
      rintro q hblank hsign rfl
      rcases hc with hc | hc
      · exact absurd (hc.symm.trans hblank) (by decide)
      · exact hsign hc
    simp [Scan.isQuote, hne '"' (by decide) (by decide), hne '\'' (by decide) (by decide)]
  have hstart : ∀ d ∈ "class".toList ++ [c], Scan.isQuote d = false :=
    List.forall_mem_append.2 ⟨forall_mem_of_all (by decide), List.forall_mem_singleton.2 hquote⟩
  rw [← List.singleton_append, ← List.append_assoc] at hcode
  obtain ⟨written, hwritten⟩ := exists_eq_append_of_blankFrom rfl hstart hcode
  rw [List.append_assoc] at hwritten
  exact not_append_of_not_startsHeading h (by decide) hc written hwritten

theorem ofLine?_of_not_startsHeading (h : startsHeading raw = false) : Heading.ofLine? raw (blankStrings raw) = none := by
  have hwords : ∀ word ∈ headingWords, afterWordBlanks? word raw = none := fun word =>
    afterWordBlanks?_of_not_startsHeading h
  have hvisibility : (Visibility.all.findSome? fun v => (afterWordBlanks? v.name raw).map fun rest => (v, rest)) = none := by
    rw [List.findSome?_eq_none_iff]
    intro v hv
    rw [hwords v.name (List.mem_append_right _ (List.mem_map_of_mem hv)), Option.map_none]
  rw [Heading.ofLine?, isSingleton_of_not_startsHeading h, Heading.class?, hwords "class" (by decide), Heading.module?,
    hwords "module" (by decide), Heading.method?, hvisibility]
  dsimp only
  rw [Heading.bareMethod?, hwords "def" (by decide)]
  rfl

/-- A line that starts with `end` is no statement of a class body. -/
theorem body_of_leads (h : firstWord (blankStrings raw) = "end".toList) : Body.ofLine? raw (blankStrings raw) = none := by
  have hcode : blankStrings raw = "end".toList ++ (blankStrings raw).dropWhile fun c => isAlphanumeric c || c == '_' := by
    rw [← h]
    exact List.takeWhile_append_dropWhile.symm
  obtain ⟨rest, hraw⟩ := exists_eq_append_of_blankFrom rfl (forall_mem_of_all (by decide)) hcode
  generalize (blankStrings raw).dropWhile (fun c => isAlphanumeric c || c == '_') = tail at hcode
  have hvisibility : Body.visibility? ("end".toList ++ tail) = none := by
    have hname : ∀ v : Visibility, v.name ≠ String.ofList ("end".toList ++ tail) := by
      intro v heq
      have hchars := congrArg String.toList heq
      rw [String.toList_ofList] at hchars
      cases v <;> exact absurd (List.cons.inj hchars).1 (by decide)
    rw [Body.visibility?, Visibility.ofName?, List.find?_eq_none.2 fun v _ => by simpa using hname v]
    rfl
  rw [hcode, hraw, Body.ofLine?, hvisibility]
  rfl

namespace Reading

variable {r : Reading} {line : Nat} {documentation : Option String}

theorem content_of_inMethod (hr : r.inMethod = true) (h : startsHeading raw = false) :
    r.content raw (blankStrings raw) line documentation = if opensBlock (blankStrings raw) then r.pushBlock else r := by
  rw [content, ofLine?_of_not_startsHeading h, if_pos hr]

theorem content_of_leads (h : firstWord (blankStrings raw) = "end".toList) :
    r.content raw (blankStrings raw) line documentation = if opensBlock (blankStrings raw) then r.pushBlock else r := by
  rw [content, heading_of_leads h, body_of_leads h]
  dsimp only
  split <;> rfl

/-- In a method, lines that are no headings are read alike if they are the same without the contents of their strings. -/
theorem codeLine_congr (hr : r.inMethod = true) {raw' : List Char} (h : startsHeading raw = false)
    (h' : startsHeading raw' = false) (hcode : blankStrings raw = blankStrings raw') :
    r.codeLine raw line documentation = r.codeLine raw' line documentation := by
  have hcontent : ∀ leads : Bool, (leads = true → firstWord (blankStrings raw) = "end".toList) →
      (if leads then r.pop line else r).content raw (blankStrings raw) line documentation =
        (if leads then r.pop line else r).content raw' (blankStrings raw) line documentation := by
    intro leads hleads
    cases leads with
    | true =>
        have hfirst := hleads rfl
        rw [content_of_leads hfirst, hcode, content_of_leads (hcode ▸ hfirst)]
    | false => 
        rw [if_neg Bool.false_ne_true, content_of_inMethod hr h, hcode, content_of_inMethod hr h']
  unfold codeLine
  dsimp only
  rw [← hcode, hcontent _ fun hleads => by simpa using (Bool.and_eq_true_iff.1 hleads).1]

end Reading

end

/-! ## Lines between others -/

theorem Progress.step_dropReturn (p : Progress) (text : List Char) : p.step (dropReturn text) = p.step text := by
  rcases List.eq_nil_or_concat' text with rfl | ⟨text, c, rfl⟩
  · rfl
  · by_cases hc : c = '\r'
    · rw [hc, dropReturn_concat, step, step]
      rw [startsWith_append_cons (by decide), startsWith_append_cons (by decide), trim_concat (by decide), plainLine, plainLine,
        trim_concat (by decide)]
    · rw [dropReturn_of_getLast (by simpa using hc)]

theorem plain_of_blockWord? {cs word : List Char} (h : blockWord? cs = some word) : Plain word := by
  cases cs with
  | nil => exact absurd h (by simp [blockWord?])
  | cons c cs =>
      obtain ⟨hc, hword⟩ := Option.ite_none_right_eq_some.1 h
      rw [← Option.some.inj hword]
      refine Plain.cons ?_ fun d hd => ?_
      · rcases Bool.or_eq_true_iff.1 hc with hc | hc
        · exact isNameChar_of_isAlpha (Bool.or_eq_true_iff.2 (Or.inl hc))
        · rw [beq_iff_eq.1 hc]
          decide
      · exact List.all_eq_true.1 List.all_takeWhile d hd

theorem plain_of_heredoc? {cs word : List Char} (h : heredoc? cs = some word) : Plain word := by
  induction cs with
  | nil => exact absurd h (by simp [heredoc?])
  | cons c cs ih =>
      rw [heredoc?, Option.or_eq_some_iff] at h
      rcases h with hhere | ⟨-, hlater⟩
      · cases hafter : after? ['<', '<'] (c :: cs) with
        | none => exact absurd hhere (by simp [heredocHere?, hafter])
        | some rest =>
            rw [after?_eq_some_iff] at hafter
            rw [hafter, List.cons_append, List.cons_append, List.nil_append, heredocHere?_eq] at hhere
            exact plain_of_blockWord? hhere
      · exact ih hlater

/-- The word of a text block is a name. -/
theorem Progress.plain_heredoc_foldl {p : Progress} (h : ∀ word ∈ p.heredoc, Plain word) (texts : List (List Char)) :
    ∀ word ∈ (texts.foldl step p).heredoc, Plain word := by
  induction texts generalizing p with
  | nil => exact h
  | cons text texts ih =>
      refine ih ?_
      have hnone : ∀ word ∈ (none : Option (List Char)), Plain word := by simp
      rw [step]
      dsimp only
      split
      · split <;> exact h
      · split
        · exact h
        · split
          next =>
            split
            · exact hnone
            · exact h
          next =>
            unfold plainLine
            split
            · exact h
            · dsimp only
              split
              · exact h
              · exact fun word => plain_of_heredoc?

/-! ## A string in a method -/

/-- The text of a string on one line: no double quote and no backslash is in it. -/
structure Inner where
  chars : List Char
  plain : chars.all (fun c => c != '"' && c != '\\' && c != '\n') = true := by decide

def Inner.empty : Inner := { chars := [] }

theorem Inner.mem_chars (inner : Inner) {c : Char} (h : c ∈ inner.chars) : c ≠ '"' ∧ c ≠ '\\' ∧ c ≠ '\n' := by
  simpa [and_assoc] using List.all_eq_true.1 inner.plain c h

/-- The place of a string between double quotes in a source: the lines before its line, and what stands in its line before
and after it. A method is open when the line is read, the line declares nothing and is no comment, and the first quote is
not in another string. -/
structure Gap where
  earlier : List Char
  before : List Char
  after : List Char
  whole : earlier = [] ∨ earlier.getLast? = some '\n'
  oneLine : '\n' ∉ before ∧ '\n' ∉ after
  inMethod : ((lines earlier).foldl Progress.step {}).reading.inMethod = true
  plainHead : startsHeading (trimStart before) = false ∧ (trimStart before).head? ≠ some '#'
  outside : ((trimStart before).foldl Scan.step {}).quote = none

namespace Gap

variable (g : Gap)

/-- The state in which the line is read. -/
def reached : Progress := (lines g.earlier).foldl Progress.step {}

/-- What stands in the line before the string, without the indentation. -/
def head : List Char := trimStart g.before

def line (inner : Inner) : List Char := g.before ++ '"' :: (inner.chars ++ '"' :: g.after)

/-- The source with some text of the string, and what follows the line. -/
def source (inner : Inner) (later : List Char) : String := String.ofList (g.earlier ++ (g.line inner ++ later))

/-- The word that ends the text block which is open after the line. -/
def textBlock? (inner : Inner) : Option (List Char) := (g.reached.step (g.line inner)).heredoc

theorem trim_line (inner : Inner) : trim (g.line inner) = g.head ++ '"' :: (inner.chars ++ '"' :: trimEnd g.after) := by
  rw [line, trim, trimStart_append_cons (by decide), head, trimEnd_append (by decide), ← List.cons_append,
    trimEnd_append (by decide), List.cons_append]

theorem foldl_source (inner : Inner) {later : List Char} (h : later = [] ∨ later.head? = some '\n') :
    (lines (g.source inner later).toList).foldl Progress.step {} =
      (lines later.tail).foldl Progress.step (g.reached.step (g.line inner)) := by
  have hfeed : '\n' ∉ g.line inner := by
    simp only [line, List.mem_append, List.mem_cons, not_or]
    exact ⟨g.oneLine.1, by decide, fun hmem => (inner.mem_chars hmem).2.2 rfl, by decide, g.oneLine.2⟩
  rw [source, String.toList_ofList, lines_append_of_whole g.whole, List.foldl_append, ← reached]
  rcases h with rfl | h
  · have hline : lines (g.line inner) = [g.line inner] := by
      rw [lines, splitOn_of_not_mem hfeed, linesOf, if_neg (by simp [line])]
    rw [List.append_nil, hline]
    rfl
  · obtain ⟨rest, rfl⟩ := List.head?_eq_some_iff.1 h
    rw [lines_append hfeed, List.foldl_cons, Progress.step_dropReturn, List.tail_cons]

/-- The line without its comment: the comment starts before the string, or what stands in the string is kept. -/
theorem withoutComment_line :
    (∃ raw, ∀ inner, trimEnd (Scan.withoutComment (trim (g.line inner))) = raw) ∨
      ∃ after, ∀ inner,
        trimEnd (Scan.withoutComment (trim (g.line inner))) = g.head ++ '"' :: (inner.chars ++ '"' :: after) := by
  have houtside := Scan.outside_foldl g.outside
  rcases Scan.codePart_append {} g.head with hstop | hpass
  · exact Or.inl ⟨_, fun inner => by rw [trim_line, Scan.withoutComment, hstop]⟩
  · refine Or.inr ⟨trimEnd (Scan.codePart (g.head.foldl Scan.step {}) (trimEnd g.after)), fun inner => ?_⟩
    have hchars : ∀ c ∈ inner.chars, c ≠ '\\' ∧ c ≠ '"' := fun c hc => ⟨(inner.mem_chars hc).2.1, (inner.mem_chars hc).1⟩
    rw [trim_line, Scan.withoutComment, hpass, head, Scan.codePart_string houtside hchars, trimEnd_append (by decide),
      ← List.cons_append, trimEnd_append (by decide), List.cons_append]

/-- The line is read alike whatever stands in the string, but for the text block that is open after it. -/
structure ReadAs (p q : Progress) (word? : Inner → Option (List Char)) : Prop where
  step : ∀ inner, p.step (g.line inner) = { q with heredoc := word? inner }
  word : (∀ inner inner', word? inner = word? inner') ∨
    q.inComment = false ∧ ∃ after, ∀ inner, word? inner = heredoc? (g.head ++ '"' :: (inner.chars ++ '"' :: after))

theorem exists_readAs_of_forall {p : Progress} (h : ∀ inner inner', p.step (g.line inner) = p.step (g.line inner')) :
    ∃ q word?, g.ReadAs p q word? :=
  ⟨p.step (g.line .empty), fun _ => (p.step (g.line .empty)).heredoc, fun inner => h inner .empty, Or.inl fun _ _ => rfl⟩

theorem startsHeading_append (rest : List Char) : startsHeading (g.head ++ '"' :: rest) = false := by
  have hhead := g.plainHead.1
  rw [startsHeading, List.any_eq_false] at hhead ⊢
  intro word hword
  have hquote : ∀ word ∈ headingWords, '"' ∉ word.toList := by decide
  have hnot := hhead word hword
  rw [after?_append_cons (hquote word hword)]
  rw [← head] at hnot
  cases hafter : after? word.toList g.head with
  | none => exact Bool.false_ne_true
  | some tail =>
      rw [hafter] at hnot
      cases tail with
      | nil => exact (by decide : ¬ (isBlank '"' || '"' == '<') = true)
      | cons c tail => exact hnot

/-- Outside of comment blocks and text blocks. -/
theorem exists_readAs_plain {p : Progress} (hin : p.reading.inMethod = true) (hcomment : p.inComment = false)
    (h : ∀ inner, p.step (g.line inner) = { p with lines := p.lines + 1 }.plainLine (g.line inner) (p.lines + 1)) :
    ∃ q word?, g.ReadAs p q word? := by
  have hsign : ∀ inner comment, trim (g.line inner) ≠ '#' :: comment := by
    intro inner comment heq
    rw [trim_line] at heq
    have hhead := g.plainHead.2
    rw [← head] at hhead
    cases hchars : g.head with
    | nil => exact absurd (List.cons.inj (hchars ▸ heq)).1 (by decide)
    | cons c rest =>
        rw [hchars] at heq hhead
        exact hhead (congrArg some (List.cons.inj heq).1)
  have hplain : ∀ inner, p.step (g.line inner) = if (trimEnd (Scan.withoutComment (trim (g.line inner)))).isEmpty then
      { p with comments := [], lines := p.lines + 1 }
    else
      { p with
        reading := p.reading.codeLine (trimEnd (Scan.withoutComment (trim (g.line inner)))) (p.lines + 1) p.documentation
        comments := []
        heredoc := heredoc? (trimEnd (Scan.withoutComment (trim (g.line inner))))
        lines := p.lines + 1 } := by
    intro inner
    rw [h, Progress.plainLine]
    split
    next heq => exact absurd heq (hsign inner _)
    next => rfl
  rcases g.withoutComment_line with ⟨raw, hraw⟩ | ⟨after, hraw⟩
  · exact g.exists_readAs_of_forall fun inner inner' => by rw [hplain, hplain, hraw, hraw]
  · refine ⟨{ p with
      reading := p.reading.codeLine (g.head ++ '"' :: (Inner.empty.chars ++ '"' :: after)) (p.lines + 1) p.documentation
      comments := []
      lines := p.lines + 1 }, _, fun inner => ?_, Or.inr ⟨hcomment, after, fun inner => rfl⟩⟩
    have hcode : ∀ inner : Inner, blankStrings (g.head ++ '"' :: (inner.chars ++ '"' :: after)) =
        blankStrings g.head ++ '"' :: '"' :: blankFrom (g.head.foldl Scan.step {}) after := by
      intro inner
      have hchars : ∀ c ∈ inner.chars, c ≠ '\\' ∧ c ≠ '"' := fun c hc => ⟨(inner.mem_chars hc).2.1, (inner.mem_chars hc).1⟩
      rw [blankStrings, blankFrom_append, head, blankFrom_string (Scan.outside_foldl g.outside) hchars, blankStrings]
    rw [hplain, hraw, if_neg (by simp), Reading.codeLine_congr hin (g.startsHeading_append _) (g.startsHeading_append _)
      ((hcode inner).trans (hcode .empty).symm)]

theorem exists_readAs {p : Progress} (hin : p.reading.inMethod = true) (hword : ∀ word ∈ p.heredoc, Plain word) :
    ∃ q word?, g.ReadAs p q word? := by
  have hend : ∀ inner, startsWith "=end".toList (g.line inner) = startsWith "=end".toList g.before := fun inner =>
    startsWith_append_cons (by decide) _ _
  have hbegin : ∀ inner, startsWith "=begin".toList (g.line inner) = startsWith "=begin".toList g.before := fun inner =>
    startsWith_append_cons (by decide) _ _
  cases hcomment : p.inComment with
  | true =>
      refine g.exists_readAs_of_forall fun inner inner' => ?_
      simp only [Progress.step, hcomment, hend, if_true]
  | false =>
      cases hblock : startsWith "=begin".toList g.before with
      | true =>
          refine g.exists_readAs_of_forall fun inner inner' => ?_
          simp only [Progress.step, hcomment, hbegin, hblock, Bool.false_eq_true, if_true, if_false]
      | false =>
          cases hheredoc : p.heredoc with
          | some word =>
              refine g.exists_readAs_of_forall fun inner inner' => ?_
              have htext : ∀ inner, trim (g.line inner) ≠ word := by
                rintro inner rfl
                exact (hword _ hheredoc).not_mem (x := '"') (by decide) (by simp [trim_line])
              simp only [Progress.step, hcomment, hbegin, hblock, hheredoc, htext, Bool.false_eq_true, if_false]
          | none =>
              refine g.exists_readAs_plain hin hcomment fun inner => ?_
              simp only [Progress.step, hcomment, hbegin, hblock, hheredoc, Bool.false_eq_true, if_false]

end Gap

/-! ## Text blocks make a difference -/

/-- The line of a class. -/
def classLine : ContainerHeading := .classNamed { first := 'X', rest := [] } none

section

variable {q : Progress} (hq : q.inComment = false)

/-- The number of declarations that have been read. -/
def count (q : Progress) : Nat := q.reading.outline.declarations.length

theorem count_finish (q : Progress) : q.finish.declarations.length = count q := by
  have hpop : ∀ (n : Nat) (r : Reading) (line : Nat),
      (r.popMany line n).outline.declarations.length = r.outline.declarations.length := by
    intro n
    induction n with
    | zero => exact fun r line => rfl
    | succ n ih =>
        intro r line
        have hmap := congrArg List.length (Reading.map_declarations_pop (g := fun _ => ()) (fun _ _ => rfl) r line)
        rw [List.length_map, List.length_map] at hmap
        rw [Reading.popMany, ih, hmap]
  exact hpop _ _ _

include hq

theorem count_step_none : count ({ q with heredoc := none }.step classLine.text) = count q + 1 := by
  have hstep := Progress.step_code (p := { q with heredoc := none }) hq rfl (List.forall_mem_nil _) classLine.lineText.codeText
  rw [List.nil_append, classLine.codeLine_text] at hstep
  rw [hstep]
  exact List.length_append

/-- Inside of a text block, a line is passed over. -/
theorem step_some {word text : List Char} (htext : ∀ c ∈ text.head?, c ≠ '=') :
    { q with heredoc := some word }.step text =
      { q with lines := q.lines + 1, heredoc := if trim text = word then none else some word } := by
  simp only [Progress.step, hq, Progress.not_startsWith_begin htext, Bool.false_eq_true, if_false]
  split <;> rfl

theorem count_step_some {word : List Char} (hword : Plain word) :
    count ({ q with heredoc := some word }.step classLine.text) = count q := by
  have hne : trim classLine.text ≠ word := by
    rintro rfl
    exact hword.not_mem (x := ' ') (by decide) (by decide)
  rw [step_some hq (by rintro c ⟨⟩; decide), if_neg hne]
  rfl

/-- Different text blocks are told apart by the lines that follow: one that ends one of them, and a class behind it. -/
theorem exists_count_ne {word? word?' : Option (List Char)} (hplain : ∀ word ∈ word?, Plain word)
    (hplain' : ∀ word ∈ word?', Plain word) (hne : word? ≠ word?') :
    ∃ texts : List (List Char), (∀ text ∈ texts, OneLine text) ∧
      count (texts.foldl Progress.step { q with heredoc := word? }) ≠
        count (texts.foldl Progress.step { q with heredoc := word?' }) := by
  have hclass : OneLine classLine.text := ⟨by decide, by decide⟩
  cases word? with
  | none =>
      cases word?' with
      | none => exact absurd rfl hne
      | some word' =>
          refine ⟨[classLine.text], List.forall_mem_singleton.2 hclass, ?_⟩
          rw [List.foldl_cons, List.foldl_nil, count_step_none hq, List.foldl_cons, List.foldl_nil,
            count_step_some hq (hplain' word' rfl)]
          exact Nat.succ_ne_self _
  | some word =>
      have hword := hplain word rfl
      cases word?' with
      | none =>
          refine ⟨[classLine.text], List.forall_mem_singleton.2 hclass, ?_⟩
          rw [List.foldl_cons, List.foldl_nil, count_step_some hq hword, List.foldl_cons, List.foldl_nil, count_step_none hq]
          exact (Nat.succ_ne_self _).symm
      | some word' =>
          have hword' := hplain' word' rfl
          have hhead : ∀ c ∈ word'.head?, c ≠ '=' := fun c hc =>
            ne_of_isNameChar (hword' c (List.mem_of_mem_head? hc)) (by decide)
          have htrim : trim word' = word' :=
            trim_eq_self (fun c hc => isBlank_of_isNameChar (hword' c (List.mem_of_mem_head? hc)))
              fun c hc => isBlank_of_isNameChar (hword' c (List.mem_of_getLast? hc))
          have hother : word' ≠ word := fun heq => hne (congrArg some heq.symm)
          refine ⟨[word', classLine.text], List.forall_mem_cons.2
            ⟨⟨hword'.not_mem (by decide), hword'.not_mem (by decide)⟩, List.forall_mem_singleton.2 hclass⟩, ?_⟩
          simp only [List.foldl_cons, List.foldl_nil]
          rw [step_some hq hhead, step_some hq hhead, htrim, if_neg hother, if_pos rfl,
            count_step_some (q := { q with lines := q.lines + 1 }) hq hword,
            count_step_none (q := { q with lines := q.lines + 1 }) hq]
          exact (Nat.succ_ne_self _).symm

end

/-! ## The text of a string -/

/-- In a line that is read while a method is open, and that is neither a heading nor a comment, the text of a string can be
replaced without a change to what is declared where, whatever follows, if and only if the same text block is open
after the line; the outlines are then the same. So it is if neither text holds an opener of text blocks and the string is not
the word of one. -/
theorem Gap.unchanged_iff (g : Gap) (inner inner' : Inner) :
    ((∀ later, later = [] ∨ later.head? = some '\n' →
        (ofSource (g.source inner later)).declarations.map Declaration.located =
          (ofSource (g.source inner' later)).declarations.map Declaration.located) ↔
      g.textBlock? inner = g.textBlock? inner') ∧
    (g.textBlock? inner = g.textBlock? inner' → ∀ later, later = [] ∨ later.head? = some '\n' →
      ofSource (g.source inner later) = ofSource (g.source inner' later)) ∧
    ((∀ opener ∈ openers, ¬ opener <:+ g.before) → ¬ ['<', '<'] <:+: inner.chars → ¬ ['<', '<'] <:+: inner'.chars →
      g.textBlock? inner = g.textBlock? inner') := by
  have hplain : ∀ word ∈ g.reached.heredoc, Plain word := Progress.plain_heredoc_foldl (by simp) _
  obtain ⟨q, word?, hread⟩ := g.exists_readAs (p := g.reached) g.inMethod hplain
  have hblock : ∀ inner, g.textBlock? inner = word? inner := fun inner => congrArg Progress.heredoc (hread.step inner)
  have hsource : ∀ inner later, later = [] ∨ later.head? = some '\n' → ofSource (g.source inner later) =
      ((lines later.tail).foldl Progress.step { q with heredoc := word? inner }).finish := by
    intro inner later hlater
    rw [ofSource, g.foldl_source inner hlater, hread.step]
  have hsame : g.textBlock? inner = g.textBlock? inner' → ∀ later, later = [] ∨ later.head? = some '\n' →
      ofSource (g.source inner later) = ofSource (g.source inner' later) := by
    intro heq later hlater
    rw [hblock, hblock] at heq
    rw [hsource inner later hlater, hsource inner' later hlater, heq]
  refine ⟨⟨fun h => ?_, fun heq later hlater => by rw [hsame heq later hlater]⟩, hsame, fun hopener hinner hinner' => ?_⟩
  · by_contra hne
    rcases hread.word with hall | ⟨hcomment, -⟩
    · exact hne (by rw [hblock, hblock, hall inner inner'])
    · have hword : ∀ inner, ∀ word ∈ word? inner, Plain word := by
        intro inner
        rw [← hblock inner]
        exact Progress.plain_heredoc_foldl (p := g.reached) hplain [g.line inner]
      rw [hblock, hblock] at hne
      obtain ⟨texts, hlines, hcount⟩ := exists_count_ne hcomment (hword inner) (hword inner') hne
      have hlater := h ('\n' :: texts.flatMap (· ++ ['\n'])) (Or.inr rfl)
      have hlength := congrArg List.length hlater
      rw [hsource inner _ (Or.inr rfl), hsource inner' _ (Or.inr rfl), List.tail_cons, lines_flatMap texts hlines,
        List.length_map, List.length_map, count_finish, count_finish] at hlength
      exact hcount hlength
  · rw [hblock, hblock]
    rcases hread.word with hall | ⟨-, after, hafter⟩
    · exact hall inner inner'
    · have hhead : ∀ opener ∈ openers, ¬ opener <:+ g.head := fun opener hmem hends =>
        hopener opener hmem (hends.trans (List.dropWhile_suffix _))
      rw [hafter, hafter, heredoc?_string hhead hinner, heredoc?_string hhead hinner']

/-- A method with a line that holds a string. -/
def methodGap : Gap where
  earlier := "class C\n  def a\n".toList
  before := "    puts ".toList
  after := []
  whole := Or.inr (by decide)
  oneLine := by decide
  inMethod := by decide +kernel
  plainHead := by decide
  outside := by decide

/-- What follows the line. -/
def methodRest : List Char := "\n  end\n  def x\n  end\nend\n".toList

theorem Gap.unchanged_iff_keywords :
    ofSource (methodGap.source { chars := "end".toList } methodRest) =
      ofSource (methodGap.source { chars := "class B".toList } methodRest) :=
  (methodGap.unchanged_iff _ _).2.1 ((methodGap.unchanged_iff _ _).2.2 (by decide) (by decide) (by decide)) methodRest
    (Or.inr rfl)

/-- With the opener of a text block in the string, the rest of the source is passed over. -/
theorem exists_changed :
    (methodGap.source { chars := "a".toList } methodRest =
      "class C\n  def a\n    puts \"a\"\n  end\n  def x\n  end\nend\n" ∧
      methodGap.source { chars := "a <<SQL".toList } methodRest =
        "class C\n  def a\n    puts \"a <<SQL\"\n  end\n  def x\n  end\nend\n") ∧
    (ofSource (methodGap.source { chars := "a".toList } methodRest)).declarations.map Declaration.located =
      [⟨.classDecl, "C", none, 1, 7⟩, ⟨.method, "a", some "C", 2, 4⟩, ⟨.method, "x", some "C", 5, 6⟩] ∧
    (ofSource (methodGap.source { chars := "a <<SQL".toList } methodRest)).declarations.map Declaration.located =
      [⟨.classDecl, "C", none, 1, 7⟩, ⟨.method, "a", some "C", 2, 7⟩] := by
  decide +kernel

end CodeAtlas.Outline
