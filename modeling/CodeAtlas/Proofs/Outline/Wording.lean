import CodeAtlas.Proofs.Outline.Conventional
/-!
# What the lines of conventional outlines say

Each kind of line does one thing: a line that opens a module, a class, a class-level part, a method or a block pushes one
frame (`codeLine_text` of each), a visibility is set, and `end` pops one frame. Names never read as keywords, because a keyword
counts only as a whole run of name characters.
-/

namespace CodeAtlas.Outline

open CodeAtlas.Text

/-! ## Texts of lines -/

/-- Characters of the lines of conventional outlines. -/
def isLineChar (c : Char) : Bool := isNameChar c || " <.|?!=".toList.contains c

theorem isLineChar_of_isNameChar {c : Char} (h : isNameChar c = true) : isLineChar c = true := by simp [isLineChar, h]

/-- The text of a line in conventional outlines: it starts with a name, ends with no blank and opens no text block. -/
structure LineText (raw : List Char) : Prop where
  chars : ∀ c ∈ raw, isLineChar c = true
  first : ∃ c cs, raw = c :: cs ∧ isNameChar c = true
  last : ∀ c ∈ raw.getLast?, isBlank c = false
  heredoc : heredoc? raw = none

variable {raw : List Char}

theorem LineText.not_mem (h : LineText raw) {c : Char} (hc : isLineChar c = false) : c ∉ raw := by
  intro hmem
  exact absurd (h.chars c hmem) (by simp [hc])

theorem LineText.codeText (h : LineText raw) : CodeText raw := by
  obtain ⟨c, cs, hraw, hc⟩ := h.first
  exact ⟨⟨c, cs, hraw, isBlank_of_isNameChar hc, ne_of_isNameChar hc (by decide)⟩, h.last, h.not_mem (by decide)⟩

theorem LineText.blankStrings (h : LineText raw) : blankStrings raw = raw := by
  refine blankStrings_of_forall fun c hc => ?_
  have hne : ∀ q, isLineChar q = false → c ≠ q := by
    rintro q hq rfl
    exact h.not_mem hq hc
  simp [Scan.isQuote, hne '"' (by decide), hne '\'' (by decide)]

theorem lineText_of_runs {first rest : List Char} (hfirst : Plain first) (hne : first ≠ [])
    (hrest : ∀ c ∈ rest, isLineChar c = true) (hlast : ∀ c ∈ rest.getLast?, isBlank c = false)
    (hheredoc : heredoc? rest = none) : LineText (first ++ rest) := by
  refine ⟨?_, ?_, ?_, ?_⟩
  · intro c hc
    rcases List.mem_append.1 hc with hc | hc
    · exact isLineChar_of_isNameChar (hfirst c hc)
    · exact hrest c hc
  · cases first with
    | nil => exact absurd rfl hne
    | cons c cs => exact ⟨c, cs ++ rest, rfl, hfirst c List.mem_cons_self⟩
  · intro c hc
    rw [List.getLast?_append, Option.mem_def, Option.or_eq_some_iff] at hc
    rcases hc with hc | ⟨-, hc⟩
    · exact hlast c hc
    · exact isBlank_of_isNameChar (hfirst c (List.mem_of_getLast? hc))
  · rw [heredoc?_append (hfirst.not_mem (by decide)), hheredoc]

theorem lineText_of_plain (hplain : Plain raw) (hne : raw ≠ []) : LineText raw := by
  have htext := lineText_of_runs hplain hne (List.forall_mem_nil _) (by simp) rfl
  rwa [List.append_nil] at htext

/-- No block is opened or closed by a keyword. -/
def Silent (raw : List Char) : Prop := countWord "end" raw = 0 ∧ countWord "do" raw = 0

theorem silent_of_keywords (h : ∀ word ∈ ["end", "do"], countWord word raw = 0) : Silent raw :=
  ⟨h "end" (by simp), h "do" (by simp)⟩

theorem plain_keyword {word : String} (h : word ∈ ["end", "do"]) : Plain word.toList ∧ word.toList ≠ [] := by
  revert word
  decide

/-- Words that lines of conventional outlines start with, or that stand in them: all are plain, and none is a keyword that
is counted. -/
theorem fixed_words : ∀ run ∈ ["module", "class", "def", "self", "if", "each"],
    Plain run.toList ∧ run.toList ≠ [] ∧ ∀ word ∈ ["end", "do"], run.toList ≠ word.toList := by decide

/-! ## Names -/

theorem plain_of_letter {c : Char} {cs : List Char} (hc : (c.isAlpha || c == '_') = true) (hcs : Plain cs) : Plain (c :: cs) := by
  refine hcs.cons ?_
  rw [Bool.or_eq_true] at hc
  rcases hc with hc | hc
  · exact isNameChar_of_isAlpha hc
  · simp [isNameChar, hc]

namespace ConstantName

variable (name : ConstantName)

theorem plain_chars : Plain name.chars := by
  have halpha : name.first.isAlpha = true := Bool.or_eq_true_iff.2 (Or.inl name.capital)
  exact plain_of_letter (Bool.or_eq_true_iff.2 (Or.inl halpha)) name.plain

theorem first_ne {c : Char} (hc : c.isUpper = false) : name.first ≠ c := by
  rintro rfl
  exact absurd name.capital (by simp [hc])

theorem chars_ne_keyword {word : String} (h : word ∈ ["end", "do"]) : name.chars ≠ word.toList := by
  intro heq
  simp only [List.mem_cons, List.not_mem_nil, or_false] at h
  rcases h with rfl | rfl
  · exact name.first_ne (by decide : 'e'.isUpper = false) (List.cons.inj heq).1
  · exact name.first_ne (by decide : 'd'.isUpper = false) (List.cons.inj heq).1

/-- A name is a whole constant path. -/
theorem constantPath?_append {rest : List Char} (hrest : ∀ c ∈ rest.head?, isPathChar c = false) :
    constantPath? (name.chars ++ rest) = some (name.chars, rest) := by
  have hpath : ∀ c ∈ name.rest, isPathChar c = true := fun c hc => by
    rw [isPathChar, isWordChar_of_isNameChar (name.plain c hc), Bool.true_or]
  unfold constantPath?
  split
  · next heq => exact absurd (List.cons.inj heq).1 (name.first_ne (by decide))
  · rw [chars, List.cons_append, plainPath?, if_pos name.capital, takeWhile_append_stop hpath hrest,
      dropWhile_append_stop hpath hrest]

theorem relativePath_chars : relativePath name.chars = String.ofList name.chars := by
  rw [relativePath, dropAllStart_of_not_mem (name.plain_chars.not_mem (by decide))]

theorem trimStart_append (rest : List Char) : trimStart (name.chars ++ rest) = name.chars ++ rest :=
  Text.trimStart_append (List.forall_mem_nil _) (by
    simpa [chars] using isBlank_of_isNameChar (name.plain_chars name.first List.mem_cons_self))

theorem constantPath?_chars : constantPath? name.chars = some (name.chars, []) := by
  have hnil : ∀ c ∈ ([] : List Char).head?, isPathChar c = false := by simp
  have hpath := name.constantPath?_append hnil
  rwa [List.append_nil] at hpath

theorem trimStart_chars : trimStart name.chars = name.chars := by
  have htrim := name.trimStart_append []
  rwa [List.append_nil] at htrim

end ConstantName

/-! ## Lines that open modules and classes -/

section

variable {rest path following : List Char}

/-- A line that starts with `class` is the heading of the class whose path follows. -/
theorem ofLine?_class (h : constantPath? (trimStart rest) = some (path, following)) :
    Heading.ofLine? ("class".toList ++ ' ' :: rest) ("class".toList ++ ' ' :: rest) =
      some (.container .classDecl path (Heading.superclass? following)) := by
  have hsign : after? ['<', '<'] (trimStart rest) = none := by
    cases hafter : after? ['<', '<'] (trimStart rest) with
    | none => rfl
    | some tail =>
        rw [after?_eq_some_iff.1 hafter] at h
        exact absurd h (Option.some_ne_none _).symm
  have hblank : trimStart (' ' :: rest) = trimStart rest := rfl
  have hsingleton : Heading.isSingleton ("class".toList ++ ' ' :: rest) = false := by
    rw [Heading.isSingleton, after?_append]
    dsimp only
    rw [hblank, hsign]
  rw [Heading.ofLine?, hsingleton, Heading.class?, afterWordBlanks?_append, Option.bind_eq_bind, Option.bind_some, h]
  rfl

/-- A line that starts with `module` is the heading of the module whose path follows. -/
theorem ofLine?_module (h : constantPath? (trimStart rest) = some (path, following)) :
    Heading.ofLine? ("module".toList ++ ' ' :: rest) ("module".toList ++ ' ' :: rest) =
      some (.container .moduleDecl path none) := by
  have hmodule : Heading.module? ("module".toList ++ ' ' :: rest) = some (.container .moduleDecl path none) := by
    rw [Heading.module?, afterWordBlanks?_append, Option.bind_eq_bind, Option.bind_some, h]
    rfl
  rw [Heading.ofLine?, hmodule]
  rfl

end

namespace ContainerHeading

variable (h : ContainerHeading)

theorem word_facts : Plain h.word.toList ∧ h.word.toList ≠ [] ∧ ∀ word ∈ ["end", "do"], h.word.toList ≠ word.toList :=
  fixed_words h.word (by cases h <;> simp [word])

theorem head_tail : ∀ c ∈ h.tail.head?, c = ' ' := by
  unfold tail
  cases h.superclass with
  | none => simp
  | some name => simp

theorem lineText : LineText h.text := by
  have hchars : ∀ name : ConstantName, ∀ c ∈ name.chars, isLineChar c = true ∧ isBlank c = false :=
    fun name c hc => ⟨isLineChar_of_isNameChar (name.plain_chars c hc), isBlank_of_isNameChar (name.plain_chars c hc)⟩
  have hless : ∀ name : ConstantName, '<' ∉ name.chars := fun name => name.plain_chars.not_mem (by decide)
  have htail : (∀ c ∈ h.tail, isLineChar c = true) ∧ (∀ c ∈ (h.name.chars ++ h.tail).getLast?, isBlank c = false) ∧
      heredoc? h.tail = none := by
    unfold tail
    cases h.superclass with
    | none =>
        refine ⟨by simp, ?_, rfl⟩
        rw [List.append_nil]
        exact fun c hc => (hchars h.name c (List.mem_of_getLast? hc)).2
    | some name =>
        refine ⟨?_, ?_, ?_⟩
        · intro c hc
          simp only [List.mem_cons] at hc
          rcases hc with rfl | rfl | rfl | hc
          · decide
          · decide
          · decide
          · exact (hchars name c hc).1
        · rw [List.getLast?_append_of_ne_nil _ (by simp), List.getLast?_cons_cons, List.getLast?_cons_cons,
            List.getLast?_cons_of_ne_nil (by simp [ConstantName.chars])]
          exact fun c hc => (hchars name c (List.mem_of_getLast? hc)).2
        · -- the less-than sign stands alone
          have hsign : heredoc? (' ' :: '<' :: ' ' :: name.chars) = heredoc? (' ' :: name.chars) := rfl
          rw [hsign, heredoc?_of_not_mem (by simpa using hless name)]
  refine lineText_of_runs h.word_facts.1 h.word_facts.2.1 ?_ ?_ ?_
  · intro c hc
    simp only [List.mem_cons, List.mem_append] at hc
    rcases hc with rfl | hc | hc
    · decide
    · exact (hchars h.name c hc).1
    · exact htail.1 c hc
  · rw [List.getLast?_cons_of_ne_nil (by simp [ConstantName.chars])]
    exact htail.2.1
  · rw [← List.singleton_append, heredoc?_append (by decide), heredoc?_append (hless h.name), htail.2.2]

theorem silent : Silent h.text := by
  refine silent_of_keywords fun word hword => ?_
  obtain ⟨hplain, hne⟩ := plain_keyword hword
  have hsign : ∀ c ∈ h.tail.head?, isNameChar c = false := by
    intro c hc
    rw [h.head_tail c hc]
    decide
  rw [countWord, text, countFrom_run_cons hplain hne h.word_facts.1 (h.word_facts.2.2 word hword) (by decide),
    countFrom_run hplain hne h.name.plain_chars hsign fun heq => absurd heq (h.name.chars_ne_keyword hword)]
  unfold tail
  cases h.superclass with
  | none => rfl
  | some name =>
      change countFrom word.toList (some ' ') ('<' :: ' ' :: name.chars) = 0
      rw [countFrom_skip hplain hne (by decide : isNameChar '<' = false),
        countFrom_skip hplain hne (by decide : isNameChar ' ' = false),
        countFrom_run_nil hplain hne name.plain_chars (name.chars_ne_keyword hword)]

theorem superclass?_tail : Heading.superclass? h.tail = h.superclass.map ConstantName.chars := by
  unfold tail
  cases h.superclass with
  | none => rfl
  | some name =>
      change (constantPath? (trimStart name.chars)).map (·.1) = _
      rw [name.trimStart_chars, name.constantPath?_chars]
      rfl

theorem ofLine?_text :
    Heading.ofLine? h.text h.text = some (.container h.kind h.name.chars (h.superclass.map ConstantName.chars)) := by
  have hpath : constantPath? (trimStart (h.name.chars ++ h.tail)) = some (h.name.chars, h.tail) := by
    rw [h.name.trimStart_append, h.name.constantPath?_append]
    intro c hc
    rw [h.head_tail c hc]
    decide
  have hsuper := h.superclass?_tail
  cases h with
  | moduleNamed name => exact ofLine?_module hpath
  | classNamed name superclass =>
      have hclass := ofLine?_class hpath
      rw [hsuper] at hclass
      exact hclass

end ContainerHeading

/-! ## Lines that open methods -/

theorem eq_of_marked {mark : Option Char} (h : mark.all (fun c => c == '?' || c == '!' || c == '=') = true) {c : Char}
    (hc : c ∈ mark) : c = '?' ∨ c = '!' ∨ c = '=' := by
  rw [Option.mem_def.1 hc] at h
  simpa [or_assoc] using h

/-- A letter or underscore, word characters and a mark are the name of a method. -/
theorem methodName?_word {first : Char} {rest : List Char} {mark : Option Char}
    (hfirst : (first.isAlpha || first == '_') = true) (hrest : ∀ c ∈ rest, isWordChar c = true)
    (hmark : ∀ c ∈ mark, c = '?' ∨ c = '!' ∨ c = '=') :
    methodName? (first :: rest ++ mark.toList) = some (first :: rest ++ mark.toList, []) := by
  have hstop : ∀ c ∈ mark.toList.head?, isWordChar c = false := by
    intro c hc
    rcases hmark c (Option.mem_toList.1 (List.mem_of_mem_head? hc)) with rfl | rfl | rfl <;> decide
  rw [List.cons_append, methodName?, if_pos hfirst, takeWhile_append_stop hrest hstop, dropWhile_append_stop hrest hstop]
  cases mark with
  | none => simp
  | some c => rcases hmark c rfl with rfl | rfl | rfl <;> rfl

/-- A line that starts with `def` is the heading of the method whose name follows. -/
theorem ofLine?_def {rest name tail : List Char} {onSelf : Bool}
    (h : Heading.definee? (trimStart rest) = some (onSelf, name, tail)) :
    Heading.ofLine? ("def".toList ++ ' ' :: rest) ("def".toList ++ ' ' :: rest) =
      some (.method none onSelf name tail ("def".toList ++ ' ' :: rest)) := by
  have hbare : Heading.bareMethod? none ("def".toList ++ ' ' :: rest) =
      some (.method none onSelf name tail ("def".toList ++ ' ' :: rest)) := by
    rw [Heading.bareMethod?, afterWordBlanks?_append, Option.bind_eq_bind, Option.bind_some, h]
    rfl
  have hvisibility : (Visibility.all.findSome? fun v =>
      (afterWordBlanks? v.name ("def".toList ++ ' ' :: rest)).map fun rest => (v, rest)) = none := rfl
  rw [Heading.ofLine?, Heading.method?, hvisibility]
  dsimp only
  rw [hbare]
  rfl

/-- Without a point nothing is defined on the class. -/
theorem definee?_of_not_mem {cs name tail : List Char} (hpoint : '.' ∉ cs) (h : methodName? cs = some (name, tail)) :
    Heading.definee? cs = some (false, name, tail) := by
  have hnone : after? Declaration.selfMark cs = none := by
    cases hrest : after? Declaration.selfMark cs with
    | none => rfl
    | some rest =>
        rw [after?_eq_some_iff] at hrest
        exact absurd (hrest ▸ List.mem_append_left rest (by decide)) hpoint
  simp [Heading.definee?, hnone, h]

namespace MethodName

variable (name : MethodName)

theorem plain_word : Plain (name.first :: name.rest) := plain_of_letter name.letter name.plain

theorem mark_cases {c : Char} (h : c ∈ name.mark) : c = '?' ∨ c = '!' ∨ c = '=' := eq_of_marked name.marked h

theorem mem_chars {c : Char} (h : c ∈ name.chars) : isNameChar c = true ∨ c = '?' ∨ c = '!' ∨ c = '=' := by
  rcases List.mem_append.1 h with h | h
  · exact Or.inl (name.plain_word c h)
  · exact Or.inr (name.mark_cases (Option.mem_toList.1 h))

theorem isLineChar_of_mem {c : Char} (h : c ∈ name.chars) : isLineChar c = true := by
  rcases name.mem_chars h with h | rfl | rfl | rfl
  · exact isLineChar_of_isNameChar h
  · decide
  · decide
  · decide

theorem isBlank_of_mem {c : Char} (h : c ∈ name.chars) : isBlank c = false := by
  rcases name.mem_chars h with h | rfl | rfl | rfl
  · exact isBlank_of_isNameChar h
  · decide
  · decide
  · decide

theorem not_mem {c : Char} (hc : isNameChar c = false) (hmark : c ∉ ['?', '!', '=']) : c ∉ name.chars := by
  intro h
  rcases name.mem_chars h with h | h
  · exact absurd h (by simp [hc])
  · exact hmark (by simpa using h)

theorem head_mark : ∀ c ∈ name.mark.toList.head?, isNameChar c = false ∧ isWordChar c = false := by
  intro c hc
  have hmark : c ∈ name.mark := Option.mem_toList.1 (List.mem_of_mem_head? hc)
  rcases name.mark_cases hmark with rfl | rfl | rfl <;> decide

/-- The whole name is read. -/
theorem methodName?_chars : methodName? name.chars = some (name.chars, []) :=
  methodName?_word name.letter (fun c hc => isWordChar_of_isNameChar (name.plain c hc)) fun _ => name.mark_cases

/-- A name is no keyword, and a keyword with a mark is none. -/
theorem countFrom_chars {word : String} (h : word ∈ ["end", "do"]) (prev : Option Char) :
    countFrom word.toList prev name.chars = 0 := by
  obtain ⟨hplain, hne⟩ := plain_keyword h
  have hexcluded : ∀ word ∈ ["end", "do"], ∀ mark ∈ [[], ['=']],
      word.toList ++ mark ∈ ["end", "end=", "do", "do="].map String.toList := by decide
  -- a word that is a keyword has a question or exclamation mark behind it, and no keyword is read before those
  have hfollow : name.first :: name.rest = word.toList → name.mark.toList.head?.all mayFollow = false := by
    intro hword
    have hallowed := name.allowed
    rw [hword] at hallowed
    cases hm : name.mark with
    | none =>
        rw [hm] at hallowed
        exact absurd (hexcluded word h [] (by simp)) hallowed
    | some c =>
        rw [hm] at hallowed
        rcases name.mark_cases hm with rfl | rfl | rfl
        · decide
        · decide
        · exact absurd (hexcluded word h ['='] (by simp)) hallowed
  rw [chars, countFrom_run hplain hne name.plain_word (fun c hc => (name.head_mark c hc).1) hfollow]
  cases name.mark <;> rfl

end MethodName

namespace Method

variable (m : Method)

theorem lineText : LineText m.text := by
  have hself : (∀ c ∈ (if m.onSelf then Declaration.selfMark else []), isLineChar c = true) ∧
      '<' ∉ (if m.onSelf then Declaration.selfMark else []) := by
    split
    · exact ⟨List.all_eq_true.1 (by decide), by decide⟩
    · simp
  have hne : m.name.chars ≠ [] := by simp [MethodName.chars]
  refine lineText_of_runs (by decide) (by decide) ?_ ?_ (heredoc?_of_not_mem ?_)
  · intro c hc
    simp only [List.mem_cons, List.mem_append] at hc
    rcases hc with rfl | hc | hc
    · decide
    · exact hself.1 c hc
    · exact m.name.isLineChar_of_mem hc
  · rw [List.getLast?_cons_of_ne_nil (by simp [hne]), List.getLast?_append_of_ne_nil _ hne]
    exact fun c hc => m.name.isBlank_of_mem (List.mem_of_getLast? hc)
  · intro hmem
    simp only [List.mem_cons, List.mem_append] at hmem
    rcases hmem with hmem | hmem | hmem
    · exact absurd hmem (by decide)
    · exact hself.2 hmem
    · exact m.name.not_mem (by decide) (by decide) hmem

theorem silent : Silent m.text := by
  refine silent_of_keywords fun word hword => ?_
  obtain ⟨hplain, hne⟩ := plain_keyword hword
  have hdef := (fixed_words "def" (by simp)).2.2 word hword
  have hself := (fixed_words "self" (by simp)).2.2 word hword
  rw [countWord, text, countFrom_run_cons hplain hne (by decide) hdef (by decide)]
  split
  · change countFrom word.toList (some ' ') ("self".toList ++ '.' :: m.name.chars) = 0
    rw [countFrom_run_cons hplain hne (by decide) hself (by decide), m.name.countFrom_chars hword]
  · exact m.name.countFrom_chars hword _

theorem ofLine?_text : Heading.ofLine? m.text m.text = some (.method none m.onSelf m.name.chars [] m.text) := by
  have htrim : trimStart ((if m.onSelf then Declaration.selfMark else []) ++ m.name.chars) =
      (if m.onSelf then Declaration.selfMark else []) ++ m.name.chars := by
    refine trimStart_append (List.forall_mem_nil _) ?_
    split
    · rintro c ⟨⟩
      decide
    · intro c hc
      exact m.name.isBlank_of_mem (List.mem_of_mem_head? hc)
  refine ofLine?_def ?_
  rw [htrim]
  cases m.onSelf with
  | true =>
      unfold Heading.definee?
      rw [if_pos rfl, after?_append, Option.bind_some, m.name.methodName?_chars]
  | false => exact definee?_of_not_mem (m.name.not_mem (by decide) (by decide)) m.name.methodName?_chars

end Method

/-! ## Lines that open blocks -/

namespace LocalName

variable (name : LocalName)

theorem plain_chars : Plain name.chars := plain_of_letter name.letter name.plain

theorem chars_ne_keyword {word : String} (h : word ∈ ["end", "do"]) : name.chars ≠ word.toList := by
  intro heq
  refine name.allowed ?_
  rw [← chars, heq]
  exact List.mem_append_right _ (List.mem_map_of_mem h)

theorem chars_not_mem_blockWords : name.chars ∉ blockWords := fun h => name.allowed (List.mem_append_left _ h)

end LocalName

namespace Opening

variable (o : Opening)

theorem lineText : LineText o.text := by
  have hchars : ∀ name : LocalName, ∀ c ∈ name.chars, isLineChar c = true :=
    fun name c hc => isLineChar_of_isNameChar (name.plain_chars c hc)
  have hless : ∀ name : LocalName, '<' ∉ name.chars := fun name => name.plain_chars.not_mem (by decide)
  have hne : ∀ name : LocalName, name.chars ≠ [] := fun name => List.cons_ne_nil _ _
  cases o with
  | condition test =>
      refine lineText_of_runs (by decide) (by decide) ?_ ?_ (heredoc?_of_not_mem (by simpa using hless test))
      · intro c hc
        rcases List.mem_cons.1 hc with rfl | hc
        · decide
        · exact hchars test c hc
      · rw [List.getLast?_cons_of_ne_nil (hne test)]
        exact fun c hc => isBlank_of_isNameChar (test.plain_chars c (List.mem_of_getLast? hc))
  | loop items item =>
      have hrest : ∀ c ∈ '.' :: ("each".toList ++ ' ' :: ("do".toList ++ ' ' :: '|' :: (item.chars ++ ['|']))),
          isLineChar c = true ∧ c ≠ '<' := by
        intro c hc
        have hword : ('.' :: ("each".toList ++ ' ' :: ("do".toList ++ [' ', '|']))).all (fun c => isLineChar c && c != '<') = true :=
          by decide
        have hcases : c ∈ '.' :: ("each".toList ++ ' ' :: ("do".toList ++ [' ', '|'])) ∨ c ∈ item.chars := by
          simp only [List.mem_cons, List.mem_append, List.not_mem_nil, or_false] at hc ⊢
          tauto
        rcases hcases with hc | hc
        · simpa using List.all_eq_true.1 hword c hc
        · exact ⟨hchars item c hc, fun heq => hless item (heq ▸ hc)⟩
      refine lineText_of_runs items.plain_chars (hne items) (fun c hc => (hrest c hc).1) ?_
        (heredoc?_of_not_mem fun hmem => (hrest '<' hmem).2 rfl)
      have hlast : '.' :: ("each".toList ++ ' ' :: ("do".toList ++ ' ' :: '|' :: (item.chars ++ ['|']))) =
          '.' :: ("each".toList ++ ' ' :: ("do".toList ++ ' ' :: '|' :: item.chars)) ++ ['|'] := by simp
      rw [hlast, List.getLast?_concat]
      rintro c ⟨⟩
      decide

/-- Behind the point a loop opens one block. -/
theorem countWord_loop (items item : LocalName) {word : String} (hword : word ∈ ["end", "do"]) :
    countWord word (loop items item).text = if word = "do" then 1 else 0 := by
  obtain ⟨hplain, hne⟩ := plain_keyword hword
  have hitem : ∀ prev, countFrom word.toList prev ('|' :: (item.chars ++ ['|'])) = 0 := by
    intro prev
    rw [countFrom_skip hplain hne (by decide), countFrom_run_cons hplain hne item.plain_chars (item.chars_ne_keyword hword)
      (by decide)]
    rfl
  have heach := (fixed_words "each" (by simp)).2.2 word hword
  rw [countWord, text, countFrom_run_cons hplain hne items.plain_chars (items.chars_ne_keyword hword) (by decide),
    countFrom_run_cons hplain hne (by decide) heach (by decide)]
  simp only [List.mem_cons, List.not_mem_nil, or_false] at hword
  rcases hword with rfl | rfl
  · rw [countFrom_run_cons hplain hne (by decide) (by decide) (by decide), hitem]
    rfl
  · -- the keyword counts at its first character, and no other starts at its second
    change 1 + countFrom "do".toList (some 'd') (['o'] ++ ' ' :: '|' :: (item.chars ++ ['|'])) = 1
    rw [countFrom_run_cons hplain hne (by decide) (by decide) (by decide), hitem]

theorem countWord_condition (test : LocalName) {word : String} (hword : word ∈ ["end", "do"]) :
    countWord word (condition test).text = 0 := by
  obtain ⟨hplain, hne⟩ := plain_keyword hword
  have hif := (fixed_words "if" (by simp)).2.2 word hword
  rw [countWord, text, countFrom_run_cons hplain hne (by decide) hif (by decide),
    countFrom_run_nil hplain hne test.plain_chars (test.chars_ne_keyword hword)]

theorem not_mem_text {c : Char} (hc : isNameChar c = false) (hfixed : c ∉ " .|".toList) : c ∉ o.text := by
  have hname : ∀ name : LocalName, c ∉ name.chars := fun name => name.plain_chars.not_mem hc
  have hwords : ∀ run ∈ ["if", "each", "do"], c ∉ run.toList := by
    intro run hrun
    have hplain : ∀ run ∈ ["if", "each", "do"], Plain run.toList := by decide
    exact (hplain run hrun).not_mem hc
  have hif := hwords "if" (by simp)
  have heach := hwords "each" (by simp)
  have hdo := hwords "do" (by simp)
  intro hmem
  cases o with
  | condition test =>
      rcases List.mem_append.1 hmem with hmem | hmem
      · exact hif hmem
      · rcases List.mem_cons.1 hmem with rfl | hmem
        · exact hfixed (by decide)
        · exact hname test hmem
  | loop items item =>
      simp only [text, List.mem_append, List.mem_cons, List.not_mem_nil, or_false, hname, heach, hdo, false_or] at hmem
      rcases hmem with rfl | rfl | rfl | rfl | rfl <;> exact hfixed (by decide)

theorem ofLine?_loop (items item : LocalName) : Heading.ofLine? (loop items item).text (loop items item).text = none := by
  have hblanks : ∀ word : String, Plain word.toList → afterWordBlanks? word (loop items item).text = none :=
    fun word hword => afterWordBlanks?_run hword items.plain_chars (by decide) (by decide)
  have hsingleton : Heading.isSingleton (loop items item).text = false := by
    unfold Heading.isSingleton
    cases hrest : after? "class".toList (loop items item).text with
    | none => rfl
    | some rest =>
        rw [after?_eq_some_iff] at hrest
        have hless : '<' ∉ trimStart rest := fun hmem => (loop items item).not_mem_text (by decide) (by decide)
          (hrest ▸ List.mem_append_right _ ((List.dropWhile_sublist _).subset hmem))
        dsimp only
        rw [after?_of_not_mem hless]
  have hvisibility : (Visibility.all.findSome? fun v =>
      (afterWordBlanks? v.name (loop items item).text).map fun rest => (v, rest)) = none := by
    rw [List.findSome?_eq_none_iff]
    intro v hv
    rw [hblanks v.name (by cases v <;> decide), Option.map_none]
  rw [Heading.ofLine?, hsingleton, Heading.class?, hblanks "class" (by decide), Heading.module?, hblanks "module" (by decide),
    Heading.method?, hvisibility]
  dsimp only
  rw [Heading.bareMethod?, hblanks "def" (by decide)]
  rfl

/-- In a method, the line opens one block. -/
theorem codeLine_text {r : Reading} (hr : r.inMethod = true) (line : Nat) (documentation : Option String) :
    r.codeLine o.text line documentation = r.pushBlock := by
  have hcode := o.lineText.blankStrings
  have hassigns : assignsFrom none o.text = false := assignsFrom_of_not_mem (o.not_mem_text (by decide) (by decide))
  cases o with
  | condition test =>
      have hfirst : firstWord (condition test).text = "if".toList := firstWord_run (by decide) (by rintro c ⟨⟩; decide)
      have hcontent : r.content (condition test).text (condition test).text line documentation = r.pushBlock := by
        rw [Reading.content, show Heading.ofLine? (condition test).text (condition test).text = none from rfl, hr, opensBlock,
          hfirst]
        rfl
      rw [Reading.codeLine_of_silent hcode (countWord_condition test (by simp)) (countWord_condition test (by simp)), hcontent]
  | loop items item =>
      have hfirst : firstWord (loop items item).text = items.chars :=
        firstWord_run items.plain_chars (by rintro c ⟨⟩; decide)
      have hblock : blockWords.contains items.chars = false := by simpa using items.chars_not_mem_blockWords
      have hloop : loopWords.contains items.chars = false := by
        -- behind a word of a loop the `do` would be that of the loop
        have hsubset : ∀ word ∈ loopWords, word ∈ blockWords := by decide
        simpa using fun hmem => items.chars_not_mem_blockWords (hsubset _ hmem)
      have hcontent : r.content (loop items item).text (loop items item).text line documentation = r := by
        rw [Reading.content, ofLine?_loop, hr, opensBlock, hfirst, hblock, hassigns]
        rfl
      rw [Reading.codeLine_of_no_end hcode (countWord_loop items item (by simp)), hfirst, hloop, hcontent,
        countWord_loop items item (by simp)]
      rfl

end Opening

/-! ## Fixed lines -/

theorem lineText_endText : LineText endText := lineText_of_plain (by decide) (by decide)

theorem lineText_visibility (v : Visibility) : LineText v.name.toList := by
  cases v <;> exact lineText_of_plain (by decide) (by decide)

theorem lineText_singletonText : LineText singletonText := by
  change LineText ("class".toList ++ " << self".toList)
  refine lineText_of_runs (by decide) (by decide) (List.all_eq_true.1 (by decide)) ?_ (by decide)
  rintro c ⟨⟩
  decide

section

variable {r : Reading} (line : Nat) (documentation : Option String)

theorem ContainerHeading.codeLine_text (h : ContainerHeading) :
    r.codeLine h.text line documentation =
      r.heading h.text line documentation (.container h.kind h.name.chars (h.superclass.map ConstantName.chars)) := by
  rw [Reading.codeLine_of_silent h.lineText.blankStrings h.silent.1 h.silent.2, Reading.content, h.ofLine?_text]

theorem Method.codeLine_text (m : Method) :
    r.codeLine m.text line documentation =
      r.heading m.text line documentation (.method none m.onSelf m.name.chars [] m.text) := by
  rw [Reading.codeLine_of_silent m.lineText.blankStrings m.silent.1 m.silent.2, Reading.content, m.ofLine?_text]

theorem codeLine_singletonText : r.codeLine singletonText line documentation = r.push { kind := .singleton } := by
  rw [Reading.codeLine_of_silent lineText_singletonText.blankStrings (by decide) (by decide), Reading.content,
    show Heading.ofLine? singletonText singletonText = some .singleton by decide]
  rfl

theorem codeLine_visibility (hr : r.inMethod = false) (v : Visibility) :
    r.codeLine v.name.toList line documentation = { r with stack := Reading.setVisibility v r.stack } := by
  have hheading : Heading.ofLine? v.name.toList v.name.toList = none := by cases v <;> decide
  have hbody : Body.ofLine? v.name.toList v.name.toList = some (.visibility v) := by cases v <;> decide
  rw [Reading.codeLine_of_silent (lineText_visibility v).blankStrings (by cases v <;> decide) (by cases v <;> decide),
    Reading.content, hheading, hr, hbody]
  rfl

end

end CodeAtlas.Outline
