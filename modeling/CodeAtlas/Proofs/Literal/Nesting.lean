import CodeAtlas.Proofs.Literal.Datum
/-!
# Scans of written data

What a scan does with a text is said by `Scan.Keeps`: brackets are closed only above a level, and no comma or equals
sign stands outside of strings and brackets. A scan may honour backslashes (`Scan.step`) or overlook them
(`Scan.glance`). Data that are scanned with backslashes honoured come out whole (`keeps_text`), so a list of them is cut at
its commas and a bracket is matched with its own. A scan that overlooks backslashes may come upon an arrow inside a
string (`ShowsArrow`), but not where no string holds a double quote (`not_showsArrow_pairText`).
-/

namespace CodeAtlas

open CodeAtlas.Text

namespace Scan

/-- A step that overlooks backslashes. -/
def glance (s : Scan) (c : Char) : Scan :=
  match s.quote with
  | some q => if c = q then { s with quote := none } else s
  | none => s.step c

/-- From one state to another a text is passed over, brackets are closed above the level only, and commas and equals
signs stand inside strings or brackets. -/
inductive Keeps (move : Scan → Char → Scan) (level : Int) : Scan → List Char → Scan → Prop
  | nil (s : Scan) : Keeps move level s [] s
  | cons {s t : Scan} {c : Char} {cs : List Char} (hclosing : s.quote = none → isClosing c = true → level < s.depth)
      (houtside : s.quote = none → c = ',' ∨ c = '=' → s.depth ≠ 0) (hcs : Keeps move level (move s c) cs t) :
      Keeps move level s (c :: cs) t

variable {move : Scan → Char → Scan} {level : Int} {s t : Scan}

theorem Keeps.append {w : Scan} {u v : List Char} (hu : Keeps move level s u t) (hv : Keeps move level t v w) :
    Keeps move level s (u ++ v) w := by
  induction hu with
  | nil s => exact hv
  | cons hclosing houtside _ ih => exact .cons hclosing houtside (ih hv)

theorem Keeps.mono {lower : Int} (hlevel : lower ≤ level) {cs : List Char} (h : Keeps move level s cs t) :
    Keeps move lower s cs t := by
  induction h with
  | nil s => exact .nil s
  | cons hclosing houtside _ ih => exact .cons (fun hq hc => Int.lt_of_le_of_lt hlevel (hclosing hq hc)) houtside ih

/-- Inside a string every character is passed over. -/
theorem Keeps.inside {c : Char} {cs : List Char} (hs : s.quote ≠ none) (h : Keeps move level (move s c) cs t) :
    Keeps move level s (c :: cs) t :=
  .cons (fun hq => absurd hq hs) (fun hq => absurd hq hs) h

/-! ### What follows from it -/

theorem Keeps.passes {cs : List Char} (h : Keeps step level s cs t) : Passes ',' s cs t := by
  induction h with
  | nil s => exact .nil s
  | @cons s t c cs _ houtside _ ih =>
      refine .cons ?_ ih
      rw [divides, ← Bool.not_eq_true]
      simp only [Bool.and_eq_true, Option.isNone_iff_eq_none, beq_iff_eq]
      rintro ⟨⟨⟨hquote, hdepth⟩, hc⟩, -⟩
      exact houtside hquote (Or.inl hc) hdepth

/-- No bracket that is closed on the way closes the first one. -/
theorem Keeps.closesFrom_append {cs : List Char} (h : Keeps step 1 s cs t) (rest : List Char) :
    closesFrom s (cs ++ rest) = closesFrom t rest := by
  induction h with
  | nil s => rfl
  | @cons s t c cs hclosing _ _ ih =>
      rw [List.cons_append, closesFrom, if_neg, ih]
      simp only [Bool.and_eq_true, Option.isNone_iff_eq_none, beq_iff_eq]
      rintro ⟨⟨hquote, hc⟩, hdepth⟩
      have hmore := hclosing hquote hc
      rw [isClosing] at hc
      have hopening : isOpening c = false ∧ isQuote c = false := by
        simp only [Bool.or_eq_true, beq_iff_eq] at hc
        rcases hc with (rfl | rfl) | rfl <;> decide
      simp only [step, hquote, hopening, isClosing, hc, Bool.false_eq_true, if_false, if_true] at hdepth
      omega

/-- Where no equals sign stands outside of strings and brackets, none is come upon there. -/
theorem Keeps.foldl_ne {cs before after : List Char} (h : Keeps move level s cs t) (hcs : cs = before ++ '=' :: after) :
    before.foldl move s ≠ {} := by
  induction h generalizing before with
  | nil s => simp at hcs
  | @cons s t c cs _ houtside _ ih =>
      cases before with
      | nil =>
          rw [List.nil_append, List.cons.injEq] at hcs
          rintro rfl
          exact houtside rfl (Or.inr hcs.1) rfl
      | cons d before =>
          rw [List.cons_append, List.cons.injEq] at hcs
          rw [List.foldl_cons, ← hcs.1]
          exact ih hcs.2

theorem unwrap?_bracket {c d : Char} {inner : List Char} (hc : isOpening c = true) (hd : isClosing d = true)
    (h : Keeps step 1 { depth := 1 } inner { depth := 1 }) : unwrap? c d (c :: inner ++ [d]) = some inner := by
  have hopen : ({} : Scan).step c = { depth := 1 } ∧ isClosing c = false := by
    simp only [isOpening, Bool.or_eq_true, beq_iff_eq] at hc
    rcases hc with (rfl | rfl) | rfl <;> decide
  have hclose : closesFrom { depth := 1 } [d] = some [] := by
    simp only [isClosing, Bool.or_eq_true, beq_iff_eq] at hd
    rcases hd with (rfl | rfl) | rfl <;> decide
  have hcloses : closes (c :: inner ++ [d]) = some [] := by
    rw [closes, List.cons_append, closesFrom, if_neg (by simp [hopen.2]), hopen.1, h.closesFrom_append, hclose]
  rw [List.cons_append] at hcloses ⊢
  rw [unwrap?, if_pos (by simp [hcloses])]
  simp

/-! ### Texts of which it holds -/

section

variable (hmove : ∀ {s : Scan} {c : Char}, s.quote = none → move s c = s.step c)

include hmove

theorem keeps_of_forall {cs : List Char} (hs : s.quote = none)
    (h : ∀ c ∈ cs, isStructural c = false ∧ (c = ',' ∨ c = '=' → s.depth ≠ 0)) : Keeps move level s cs s := by
  induction cs with
  | nil => exact .nil s
  | cons c cs ih =>
      obtain ⟨⟨hc, hcomma⟩, hcs⟩ := List.forall_mem_cons.1 h
      simp only [isStructural, Bool.or_eq_false_iff] at hc
      refine .cons (fun _ hclosing => absurd hclosing (by simp [hc])) (fun _ => hcomma) ?_
      rw [hmove hs]
      simpa [step, hs, hc] using ih hcs

theorem keeps_bracket {c d : Char} {inner : List Char} (hc : isOpening c = true) (hd : isClosing d = true)
    (h : Keeps move (level + 1) { depth := level + 1 } inner { depth := level + 1 }) :
    Keeps move level { depth := level } (c :: inner ++ [d]) { depth := level } := by
  have hopening : isQuote c = false ∧ isClosing c = false ∧ ¬ (c = ',' ∨ c = '=') := by
    simp only [isOpening, Bool.or_eq_true, beq_iff_eq] at hc
    rcases hc with (rfl | rfl) | rfl <;> decide
  have hclosing : isQuote d = false ∧ isOpening d = false ∧ ¬ (d = ',' ∨ d = '=') := by
    simp only [isClosing, Bool.or_eq_true, beq_iff_eq] at hd
    rcases hd with (rfl | rfl) | rfl <;> decide
  refine .cons (fun _ h => absurd h (by simp [hopening.2.1])) (fun _ h => absurd h hopening.2.2) ?_
  rw [hmove rfl, show step { depth := level } c = { depth := level + 1 } by simp [step, hopening.1, hc]]
  refine (h.mono (by omega)).append (.cons (fun _ _ => Int.lt_succ level) (fun _ h => absurd h hclosing.2.2) ?_)
  rw [hmove rfl, show step { depth := level + 1 } d = { depth := level } by simp [step, hclosing.1, hclosing.2.1, hd]]
  exact .nil _

/-- Inside brackets texts may stand with commas between them. -/
theorem keeps_separated (hlevel : 0 < level) {texts : List (List Char)}
    (h : ∀ text ∈ texts, Keeps move level { depth := level } text { depth := level }) :
    Keeps move level { depth := level } (Datum.separated texts) { depth := level } := by
  have hcomma : Keeps move level { depth := level } [',', ' '] { depth := level } := by
    have hplain : ∀ c ∈ [',', ' '], isStructural c = false := forall_mem_of_all (by decide)
    exact keeps_of_forall hmove rfl fun c hc => ⟨hplain c hc, fun _ => (Int.ne_of_lt hlevel).symm⟩
  cases texts with
  | nil => exact .nil _
  | cons text texts =>
      obtain ⟨htext, htexts⟩ := List.forall_mem_cons.1 h
      rw [Datum.separated, joinWith_cons_flatMap]
      refine htext.append ?_
      clear htext h
      induction texts with
      | nil => exact .nil _
      | cons next texts ih =>
          obtain ⟨hnext, hrest⟩ := List.forall_mem_cons.1 htexts
          rw [List.flatMap_cons]
          exact (hcomma.append hnext).append (ih hrest)

/-- A quoted text is passed over if its inside leaves the string open. -/
theorem keeps_quote {cs : List Char}
    (h : Keeps move level { quote := some '"', depth := level } (cs.flatMap Literal.escapeChar)
      { quote := some '"', depth := level })
    (hend : move { quote := some '"', depth := level } '"' = { depth := level }) :
    Keeps move level { depth := level } (Literal.quote cs) { depth := level } := by
  refine .cons (fun _ h => absurd h (by decide)) (fun _ h => absurd h (by decide)) ?_
  rw [hmove rfl]
  change Keeps move level { quote := some '"', depth := level } (cs.flatMap Literal.escapeChar ++ ['"']) _
  refine h.append (.inside (by simp) ?_)
  rw [hend]
  exact .nil _

end

/-- With backslashes honoured a quoted text is passed over, whatever it holds. -/
theorem keeps_step_quote (cs : List Char) : Keeps step level { depth := level } (Literal.quote cs) { depth := level } := by
  refine keeps_quote (fun _ => rfl) ?_ (by simp [step])
  induction cs with
  | nil => exact .nil _
  | cons c cs ih =>
      rw [List.flatMap_cons]
      refine Keeps.append ?_ ih
      rcases Literal.escapeChar_cases c with ⟨hself, hslash, hquote⟩ | ⟨d, hpair, -, -⟩
      · rw [hself]
        refine .inside (by simp) ?_
        simpa [step, hslash, hquote] using Keeps.nil _
      · rw [hpair]
        refine .inside (by simp) (.inside (by simp [step]) ?_)
        simpa [step] using Keeps.nil _

/-- With backslashes overlooked a quoted text is passed over if it holds no double quote. -/
theorem keeps_glance_quote {cs : List Char} (hcs : '"' ∉ cs) :
    Keeps glance level { depth := level } (Literal.quote cs) { depth := level } := by
  refine keeps_quote (fun hs => by simp [glance, hs]) ?_ (by simp [glance])
  have hstay : ∀ d, d ≠ '"' → glance { quote := some '"', depth := level } d = { quote := some '"', depth := level } :=
    fun d hd => by simp [glance, hd]
  induction cs with
  | nil => exact .nil _
  | cons c cs ih =>
      rw [List.mem_cons, not_or] at hcs
      rw [List.flatMap_cons]
      refine Keeps.append ?_ (ih hcs.2)
      rcases Literal.escapeChar_cases c with ⟨hself, -, hquote⟩ | ⟨d, hpair, hd, -⟩
      · rw [hself]
        refine .inside (by simp) ?_
        rw [hstay c hquote]
        exact .nil _
      · rw [hpair]
        refine .inside (by simp) ?_
        rw [hstay _ (by decide)]
        refine .inside (by simp) ?_
        rw [hstay d fun heq => hcs.1 (hd heq).symm]
        exact .nil _

/-! ### Written data -/

section

variable (hmove : ∀ {s : Scan} {c : Char}, s.quote = none → move s c = s.step c)

include hmove

theorem keeps_plain {cs : List Char} (h : ∀ c ∈ cs, isStructural c = false ∧ c ≠ ',' ∧ c ≠ '=') (level : Int) :
    Keeps move level { depth := level } cs { depth := level } :=
  keeps_of_forall hmove rfl fun c hc => ⟨(h c hc).1, fun heq => absurd heq (not_or.2 (h c hc).2)⟩

theorem keeps_identifier (key : Identifier) (level : Int) :
    Keeps move level { depth := level } key.name.toList { depth := level } := by
  refine keeps_plain hmove (fun c hc => ?_) level
  have hchar := key.chars c hc
  exact ⟨isStructural_of_isIdentifierChar hchar, ne_of_isIdentifierChar hchar (by decide),
    ne_of_isIdentifierChar hchar (by decide)⟩

theorem keeps_numeral (n level : Int) : Keeps move level { depth := level } (toString n).toList { depth := level } := by
  refine keeps_plain hmove (fun c hc => ?_) level
  rcases Number.mem_toString hc with rfl | hdigit
  · decide
  · exact forall_nameChar (P := fun c => isStructural c = false ∧ c ≠ ',' ∧ c ≠ '=') (by decide)
      (by simp [isNameChar, Char.isAlphanum, hdigit])

theorem keeps_pairText {pair : Identifier × Datum} {level : Int}
    (hvalue : Keeps move level { depth := level } pair.2.text { depth := level }) :
    Keeps move level { depth := level } (Datum.pairText pair) { depth := level } := by
  have hcolon : Keeps move level { depth := level } [':', ' '] { depth := level } :=
    keeps_plain hmove (forall_mem_of_all (by decide)) level
  exact (keeps_identifier hmove pair.1 level).append (hcolon.append hvalue)

/-- A value is passed over if its strings are. -/
theorem keeps_text {d : Datum} (h : ∀ s ∈ d.strings, ∀ level, Keeps move level { depth := level }
    (Literal.quote s.toList) { depth := level }) {level : Int} (hlevel : 0 ≤ level) :
    Keeps move level { depth := level } d.text { depth := level } := by
  induction d generalizing level with
  | str text => exact h text (by simp [Datum.strings]) level
  | sym name =>
      have hcolon : Keeps move level { depth := level } [':'] { depth := level } :=
        keeps_plain hmove (forall_mem_of_all (by decide)) level
      exact hcolon.append (keeps_identifier hmove name level)
  | int value => exact keeps_numeral hmove value.toInt level
  | bool value => cases value <;> exact keeps_plain hmove (forall_mem_of_all (by decide)) level
  | nil => exact keeps_plain hmove (forall_mem_of_all (by decide)) level
  | array items ih =>
      refine keeps_bracket hmove (by decide) (by decide) (keeps_separated hmove (by omega) fun text htext => ?_)
      rw [Datum.texts_eq_map] at htext
      obtain ⟨item, hitem, rfl⟩ := List.mem_map.1 htext
      refine ih item hitem (fun s hs => h s ?_) (by omega)
      rw [Datum.strings, Datum.itemStrings_eq_flatMap]
      exact List.mem_flatMap.2 ⟨item, hitem, hs⟩
  | hash pairs ih =>
      have hblank : Keeps move (level + 1) { depth := level + 1 } [' '] { depth := level + 1 } :=
        keeps_plain hmove (forall_mem_of_all (by decide)) (level + 1)
      have hinner : Keeps move (level + 1) { depth := level + 1 } (Datum.separated (Datum.pairTexts pairs))
          { depth := level + 1 } := by
        refine keeps_separated hmove (by omega) fun text htext => ?_
        rw [Datum.pairTexts_eq_map] at htext
        obtain ⟨pair, hpair, rfl⟩ := List.mem_map.1 htext
        refine keeps_pairText hmove (ih pair hpair (fun s hs => h s ?_) (by omega))
        rw [Datum.strings, Datum.pairStrings_eq_flatMap]
        exact List.mem_flatMap.2 ⟨pair, hpair, hs⟩
      exact keeps_bracket hmove (by decide) (by decide) (hblank.append (hinner.append hblank))

end

theorem keeps_step_text (d : Datum) {level : Int} (hlevel : 0 ≤ level) :
    Keeps step level { depth := level } d.text { depth := level } :=
  keeps_text (fun _ => rfl) (fun s _ _ => keeps_step_quote s.toList) hlevel

theorem keeps_step_pairText (pair : Identifier × Datum) {level : Int} (hlevel : 0 ≤ level) :
    Keeps step level { depth := level } (Datum.pairText pair) { depth := level } :=
  keeps_pairText (fun _ => rfl) (keeps_step_text pair.2 hlevel)

end Scan

/-! ## Arrows -/

/-- Where a scan that overlooks backslashes comes upon an arrow outside of strings and brackets. -/
def ShowsArrow (cs : List Char) : Prop :=
  ∃ before after, cs = before ++ '=' :: '>' :: after ∧ before.foldl Scan.glance {} = {}

namespace Arguments

theorem eq_of_splitArrow?_eq_some {quote : Option Char} {depth : Int} {cs left right : List Char}
    (h : splitArrow? quote depth cs = some (left, right)) : cs = left ++ '=' :: '>' :: right := by
  fun_induction splitArrow? quote depth cs generalizing left with
  | case1 => simp at h
  | case2 q depth c cs ih =>
      obtain ⟨l, hl, rfl⟩ := exists_of_map_cons h
      rw [List.cons_append, ← ih hl]
  | case3 =>
      simp only [Option.some.injEq, Prod.mk.injEq] at h
      rw [← h.1, ← h.2, List.nil_append]
  | case4 =>
      rename_i ih
      obtain ⟨l, hl, rfl⟩ := exists_of_map_cons h
      rw [List.cons_append, ← ih hl]

/-- Where no arrow starts outside of strings and brackets, the search goes on as the scan does. -/
theorem splitArrow?_cons {s : Scan} {c : Char} {cs : List Char}
    (h : ¬ (s.quote = none ∧ s.depth = 0 ∧ c = '=' ∧ cs.head? = some '>')) :
    splitArrow? s.quote s.depth (c :: cs) =
      (splitArrow? (s.glance c).quote (s.glance c).depth cs).map fun (l, r) => (c :: l, r) := by
  obtain ⟨quote, escaped, depth⟩ := s
  cases quote with
  | some q =>
      simp only [splitArrow?, Scan.glance]
      split <;> rfl
  | none =>
      rw [splitArrow?]
      · simp only [Scan.glance, Scan.step]
        by_cases hquote : Scan.isQuote c = true
        · have hbracket : Scan.isOpening c = false ∧ Scan.isClosing c = false := by
            simp only [Scan.isQuote, Bool.or_eq_true, beq_iff_eq] at hquote
            rcases hquote with rfl | rfl <;> decide
          simp [hquote, hbracket]
        · by_cases hopening : Scan.isOpening c = true
          · simp [hquote, hopening]
          · by_cases hclosing : Scan.isClosing c = true <;> simp [hquote, hopening, hclosing]
      · intro rest hc hcs hdepth
        exact h ⟨rfl, by simpa using hdepth, hc, by rw [hcs]; rfl⟩

theorem splitArrow?_eq_none_iff_from {s : Scan} (hs : s.escaped = false) {cs : List Char} :
    splitArrow? s.quote s.depth cs = none ↔
      ∀ before after, cs = before ++ '=' :: '>' :: after → before.foldl Scan.glance s ≠ {} := by
  induction cs generalizing s with
  | nil => simp [splitArrow?]
  | cons c cs ih =>
      by_cases harrow : s.quote = none ∧ s.depth = 0 ∧ c = '=' ∧ cs.head? = some '>'
      · obtain ⟨hquote, hdepth, rfl, hhead⟩ := harrow
        obtain ⟨after, rfl⟩ := List.head?_eq_some_iff.1 hhead
        have hstart : s = {} := by
          obtain ⟨quote, escaped, depth⟩ := s
          simp_all
        have hnow : splitArrow? none 0 ('=' :: '>' :: after) = some ([], after) := by rw [splitArrow?]; rfl
        rw [hstart]
        refine iff_of_false (by simp [hnow]) fun h => ?_
        exact h [] after rfl rfl
      · have hnext : (s.glance c).escaped = false := by
          rw [Scan.glance]
          split
          · split <;> exact hs
          · next hquote =>
              simp only [Scan.step, hquote]
              split_ifs <;> exact hs
        rw [splitArrow?_cons harrow, Option.map_eq_none_iff, ih hnext]
        constructor
        · intro h before after hcs
          cases before with
          | nil =>
              rw [List.nil_append, List.cons.injEq] at hcs
              rintro rfl
              exact harrow ⟨rfl, rfl, hcs.1, by rw [hcs.2]; rfl⟩
          | cons d before =>
              rw [List.cons_append, List.cons.injEq] at hcs
              rw [List.foldl_cons, ← hcs.1]
              exact h before after hcs.2
        · intro h before after hcs
          exact h (c :: before) after (by rw [hcs, List.cons_append])

theorem splitArrow?_eq_none_iff {cs : List Char} : splitArrow? none 0 cs = none ↔ ¬ ShowsArrow cs := by
  have h : splitArrow? none 0 cs = none ↔ ∀ before after, cs = before ++ '=' :: '>' :: after →
      before.foldl Scan.glance {} ≠ {} := splitArrow?_eq_none_iff_from (s := {}) rfl
  rw [h, ShowsArrow]
  simp only [not_exists, not_and, ne_eq]

end Arguments

theorem not_showsArrow_of_keeps {cs : List Char} (h : Scan.Keeps Scan.glance 0 {} cs {}) : ¬ ShowsArrow cs := by
  rintro ⟨before, after, hcs, hglance⟩
  exact h.foldl_ne hcs hglance

/-- No arrow shows where no string holds a double quote. -/
theorem not_showsArrow_pairText {pair : Identifier × Datum} (h : ∀ s ∈ pair.2.strings, '"' ∉ s.toList) :
    ¬ ShowsArrow (Datum.pairText pair) := by
  have hmove : ∀ {s : Scan} {c : Char}, s.quote = none → s.glance c = s.step c := fun hs => by rw [Scan.glance, hs]
  exact not_showsArrow_of_keeps <| Scan.keeps_pairText hmove <|
    Scan.keeps_text hmove (fun s hs _ => Scan.keeps_glance_quote (h s hs)) le_rfl

end CodeAtlas
