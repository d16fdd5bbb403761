import CodeAtlas.Proofs.Literal.Nesting
/-!
# Members of written lists

A written value, and a written pair, neither starts nor ends with a blank and comes out of a scan whole (`Member`). So a
list of such texts is cut into them again (`parts_separated`). Each of them is then divided into a key and a value, or is
not: an arrow that shows, inside a string behind an escaped quote, takes a pair for no pair, and a string whose first
double quote stands before a colon is taken for one (`TakenForPair`).
-/

namespace CodeAtlas

open CodeAtlas.Text

/-! ## Texts that stand in a list -/

/-- A text that starts and ends with no blank, and starts with no parenthesis. -/
structure Solid (cs : List Char) : Prop where
  ne_nil : cs ≠ []
  first : ∀ c ∈ cs.head?, isBlank c = false ∧ c ≠ '('
  last : ∀ c ∈ cs.getLast?, isBlank c = false

namespace Solid

variable {cs u v : List Char}

theorem of_forall (hne : cs ≠ []) (h : ∀ c ∈ cs, isBlank c = false ∧ c ≠ '(') : Solid cs where
  ne_nil := hne
  first c hc := h c (List.mem_of_mem_head? hc)
  last c hc := (h c (List.mem_of_getLast? hc)).1

/-- Only the first and the last character count. -/
theorem cons_concat {c d : Char} (hc : isBlank c = false ∧ c ≠ '(') (hd : isBlank d = false) (inner : List Char) :
    Solid (c :: inner ++ [d]) where
  ne_nil := by simp
  first := by simpa using hc
  last := by
    rw [List.getLast?_concat]
    simpa using hd

theorem append (hu : Solid u) (hv : Solid v) (between : List Char) : Solid (u ++ (between ++ v)) where
  ne_nil := by simp [hu.ne_nil]
  first c hc := hu.first c (by rwa [List.head?_append_of_ne_nil _ hu.ne_nil] at hc)
  last c hc := hv.last c (by
    rwa [List.getLast?_append_of_ne_nil _ (by simp [hv.ne_nil]), List.getLast?_append_of_ne_nil _ hv.ne_nil] at hc)

theorem trim_eq (h : Solid cs) : trim cs = cs := trim_eq_self (fun c hc => (h.first c hc).1) h.last

theorem trim_cons (h : Solid cs) : trim (' ' :: cs) = cs :=
  trim_cons_blank (by decide) (fun c hc => (h.first c hc).1) h.last

theorem trim_between (h : Solid cs) : trim (' ' :: cs ++ [' ']) = cs := by
  obtain ⟨u, c, rfl⟩ := (List.eq_nil_or_concat' cs).resolve_left h.ne_nil
  have hc : isBlank c = false := h.last c (by rw [List.getLast?_concat]; rfl)
  have hstart : trimStart ([' '] ++ (u ++ [c] ++ [' '])) = u ++ [c] ++ [' '] := by
    refine trimStart_append (by simp; decide) fun d hd => (h.first d ?_).1
    rwa [List.head?_append_of_ne_nil _ h.ne_nil] at hd
  have hend : trimEnd (u ++ [c] ++ [' ']) = u ++ [c] := by
    rw [List.append_assoc]
    exact trimEnd_append hc [' ']
  rw [List.cons_append, trim, ← List.singleton_append, hstart, hend]

theorem unwrap?_eq_none (h : Solid cs) : Scan.unwrap? '(' ')' cs = none := by
  cases cs with
  | nil => rfl
  | cons c cs => rw [Scan.unwrap?, if_neg (by simp [(h.first c rfl).2])]

/-- Texts with commas between them start and end as the first and the last of them. -/
theorem separated {texts : List (List Char)} (hne : texts ≠ []) (h : ∀ text ∈ texts, Solid text) :
    Solid (Datum.separated texts) := by
  induction texts with
  | nil => exact absurd rfl hne
  | cons text texts ih =>
      obtain ⟨htext, htexts⟩ := List.forall_mem_cons.1 h
      cases texts with
      | nil => rwa [Datum.separated, joinWith, List.intercalate_singleton]
      | cons next texts =>
          have hrest := htext.append (ih (by simp) htexts) [',', ' ']
          rw [Datum.separated, joinWith_cons_flatMap] at hrest ⊢
          rwa [List.flatMap_cons, List.append_assoc]

end Solid

namespace Datum

theorem solid_identifier (key : Identifier) : Solid key.name.toList := by
  obtain ⟨c, cs, hname, -⟩ := key.exists_cons
  exact .of_forall (by simp [hname]) fun d hd =>
    ⟨isBlank_of_isIdentifierChar (key.chars d hd), ne_of_isIdentifierChar (key.chars d hd) (by decide)⟩

theorem solid_text (d : Datum) : Solid d.text := by
  cases d with
  | str text => exact .cons_concat (by decide) (by decide) _
  | sym name =>
      have hname := solid_identifier name
      refine ⟨by simp [text], by simp [text]; decide, fun c hc => hname.last c ?_⟩
      rwa [text, List.getLast?_cons_of_ne_nil hname.ne_nil] at hc
  | int value =>
      refine .of_forall ?_ fun c hc => ?_
      · rw [text, Number.toList_toString]
        split
        · simp
        · exact Nat.toDigits_ne_nil
      · rcases Number.mem_toString hc with rfl | hdigit
        · decide
        · exact forall_nameChar (P := fun c => isBlank c = false ∧ c ≠ '(') (by decide)
            (by simp [isNameChar, Char.isAlphanum, hdigit])
  | bool value => cases value <;> exact .of_forall (by decide) (forall_mem_of_all (by decide))
  | nil => exact .of_forall (by decide) (forall_mem_of_all (by decide))
  | array items => exact .cons_concat (by decide) (by decide) _
  | hash pairs => exact .cons_concat (by decide) (by decide) _

theorem solid_pairText (pair : Identifier × Datum) : Solid (pairText pair) :=
  (solid_identifier pair.1).append (solid_text pair.2) [':', ' ']

end Datum

/-- A text that can be a member of a list. -/
structure Member (cs : List Char) : Prop extends Solid cs where
  keeps : ∀ {level : Int}, 0 ≤ level → Scan.Keeps Scan.step level { depth := level } cs { depth := level }

theorem Datum.member_text (d : Datum) : Member d.text where
  toSolid := solid_text d
  keeps := Scan.keeps_step_text d

theorem Datum.member_pairText (pair : Identifier × Datum) : Member (pairText pair) where
  toSolid := solid_pairText pair
  keeps := Scan.keeps_step_pairText pair

/-! ## Lists of arguments -/

namespace Arguments

/-- Texts with commas between them are told apart again. -/
theorem parts_separated {texts : List (List Char)} (h : ∀ text ∈ texts, Member text) :
    parts (Datum.separated texts) = texts := by
  cases texts with
  | nil => decide
  | cons text texts =>
      obtain ⟨htext, htexts⟩ := List.forall_mem_cons.1 h
      have hpasses : ∀ {next}, Member next → Scan.Passes ',' {} next {} := fun hnext => (hnext.keeps le_rfl).passes
      have hblank : Scan.Passes ',' {} [' '] {} := .cons (by decide) (.nil _)
      have hsplit : Scan.splitTop ',' (Datum.separated (text :: texts)) = text :: texts.map (' ' :: ·) := by
        rw [Datum.separated, joinWith_cons_flatMap]
        exact Scan.splitTop_flatMap (by decide) (hpasses htext) fun next hnext => hblank.append (hpasses (htexts next hnext))
      have htrim : (texts.map (' ' :: ·)).map trim = texts := by
        rw [List.map_map]
        exact (List.map_congr_left fun next hnext => (htexts next hnext).trim_cons).trans (List.map_id' texts)
      rw [parts, hsplit, List.map_cons, htext.trim_eq, htrim, List.filter_eq_self]
      exact fun next hnext => by simpa using (h next hnext).ne_nil

theorem withoutParens_of_trim {texts : List (List Char)} (h : ∀ text ∈ texts, Member text) {cs : List Char}
    (hcs : trim cs = Datum.separated texts) : withoutParens cs = Datum.separated texts := by
  rw [withoutParens, hcs]
  cases texts with
  | nil => rfl
  | cons text texts => rw [(Solid.separated (by simp) fun next hnext => (h next hnext).toSolid).unwrap?_eq_none]

theorem trim_separated {texts : List (List Char)} (h : ∀ text ∈ texts, Member text) :
    trim (Datum.separated texts) = Datum.separated texts ∧
      trim (' ' :: Datum.separated texts ++ [' ']) = Datum.separated texts := by
  cases texts with
  | nil => decide
  | cons text texts =>
      have hsolid := Solid.separated (List.cons_ne_nil text texts) fun next hnext => (h next hnext).toSolid
      exact ⟨hsolid.trim_eq, hsolid.trim_between⟩

theorem optionPieces_eq_filterMap (cs : List Char) : optionPieces cs = (parts (withoutParens cs)).filterMap splitPair? := by
  rw [optionPieces, pieces, List.filterMap_map]
  congr 1
  funext text
  simp only [Function.comp_apply, Piece.ofChars]
  cases splitPair? text <;> rfl

/-- A pair with its value read. -/
def readPair? (text : List Char) : Option (String × Literal) :=
  (splitPair? text).map fun (key, value) => (key, Literal.ofChars value)

/-- What is no pair is read as a value. -/
def readValue? (text : List Char) : Option Literal :=
  if (splitPair? text).isNone then some (Literal.ofChars text) else none

theorem ofChars_eq_filterMap (cs : List Char) :
    ofChars cs = { positional := (parts (withoutParens cs)).filterMap readValue?,
                   options := (parts (withoutParens cs)).filterMap readPair? } := by
  rw [ofChars, pieces]
  congr 1
  all_goals
    rw [List.filterMap_map]
    congr 1
    funext text
    simp only [Function.comp_apply, Piece.ofChars, readValue?, readPair?]
    cases splitPair? text <;> rfl

end Arguments

/-! ## Pairs and what is taken for one -/

/-- A string whose first double quote is followed by one colon, where no arrow shows. -/
def TakenForPair (s : List Char) : Prop :=
  ¬ ShowsArrow (Literal.quote s) ∧ ∃ key rest, s = key ++ '"' :: ':' :: rest ∧ '"' ∉ key ∧ rest.head? ≠ some ':'

namespace Literal

theorem named?_of_head {c : Char} (hquote : Scan.isQuote c = false) (hcolon : c ≠ ':') (cs : List Char) :
    named? (c :: cs) = none := by
  rw [named?, quoted?_of_head hquote]
  exact fun rest heq => hcolon (List.cons.inj heq).1

end Literal

namespace Arguments

theorem splitPair?_pairText {pair : Identifier × Datum} (h : ¬ ShowsArrow (Datum.pairText pair)) :
    splitPair? (Datum.pairText pair) = some (pair.1.name, pair.2.text) := by
  obtain ⟨c, cs, hname, hc⟩ := pair.1.exists_cons
  have hsolid := Datum.solid_text pair.2
  have hkey : ∀ d ∈ cs, isKeyChar d = true := by
    intro d hd
    have halpha := isAlphanumeric_of_isIdentifierChar (pair.1.chars d (hname ▸ List.mem_cons_of_mem _ hd))
    rw [Bool.or_eq_true] at halpha
    simp only [isKeyChar, Bool.or_eq_true]
    exact Or.inl (Or.inl halpha)
  have harrow := splitArrow?_eq_none_iff.2 h
  rw [Datum.pairText, hname] at harrow ⊢
  rw [splitPair?_key hc hkey harrow (fun d hd => (hsolid.first d hd).1) hsolid.last, ← hname, String.ofList_toList]

/-- Before an arrow stands a name or there is no pair. -/
theorem splitPair?_of_showsArrow {cs : List Char} (h : ShowsArrow cs)
    (hnamed : ∀ left right, cs = left ++ '=' :: '>' :: right → Literal.named? (trim left) = none) : splitPair? cs = none := by
  cases harrow : splitArrow? none 0 cs with
  | none => exact absurd h (splitArrow?_eq_none_iff.1 harrow)
  | some halves =>
      unfold splitPair?
      rw [harrow]
      dsimp only
      rw [hnamed halves.1 halves.2 (eq_of_splitArrow?_eq_some harrow)]
      rfl

theorem named?_trim_of_head {c : Char} {cs left right : List Char}
    (hc : isBlank c = false ∧ Scan.isQuote c = false ∧ c ≠ ':' ∧ c ≠ '=') (h : c :: cs = left ++ '=' :: '>' :: right) :
    Literal.named? (trim left) = none := by
  cases left with
  | nil => exact absurd (List.cons.inj h).1 hc.2.2.2
  | cons d left =>
      rw [List.cons_append, List.cons.injEq] at h
      have hstart : trimStart (c :: left) = c :: left := List.dropWhile_cons_of_neg (by simp [hc.1])
      have hend : trimEnd (c :: left) = c :: trimEnd left := trimEnd_append (u := []) hc.1 left
      rw [← h.1, trim, hstart, hend, Literal.named?_of_head hc.2.1 hc.2.2.1]

theorem splitPair?_pairText_of_showsArrow {pair : Identifier × Datum} (h : ShowsArrow (Datum.pairText pair)) :
    splitPair? (Datum.pairText pair) = none := by
  obtain ⟨c, cs, hname, -⟩ := pair.1.exists_cons
  have hc := pair.1.chars c (hname ▸ List.mem_cons_self)
  have hquote := isStructural_of_isIdentifierChar hc
  simp only [Scan.isStructural, Bool.or_eq_false_iff] at hquote
  refine splitPair?_of_showsArrow h fun left right hcs => ?_
  rw [Datum.pairText, hname, List.cons_append] at hcs
  exact named?_trim_of_head ⟨isBlank_of_isIdentifierChar hc, hquote.1.1, ne_of_isIdentifierChar hc (by decide),
    ne_of_isIdentifierChar hc (by decide)⟩ hcs

/-- What starts like no key and no string is no pair. -/
theorem splitPair?_of_head {c : Char} (hc : isBlank c = false ∧ Scan.isQuote c = false ∧ c ≠ ':' ∧ c ≠ '=')
    (hletter : (isLetter c || c == '_') = false) (cs : List Char) : splitPair? (c :: cs) = none := by
  by_cases harrow : ShowsArrow (c :: cs)
  · exact splitPair?_of_showsArrow harrow fun left right hcs => named?_trim_of_head hc hcs
  · have hkey : plainKey? (c :: cs) = none := by rw [plainKey?, if_neg (by simp [hletter])]
    unfold splitPair?
    rw [splitArrow?_eq_none_iff.2 harrow]
    dsimp only
    split
    · next heq =>
        rw [(List.cons.inj heq).1] at hc
        exact absurd hc.2.1 (by decide)
    · rw [hkey]

/-! ### Strings -/

theorem splitPair?_quote_of_showsArrow {s : List Char} (h : ShowsArrow (Literal.quote s)) :
    splitPair? (Literal.quote s) = none := by
  refine splitPair?_of_showsArrow h fun left right hcs => ?_
  cases left with
  | nil => exact absurd (List.cons.inj hcs).1 (by decide)
  | cons q left =>
      have hq : q = '"' := (List.cons.inj hcs).1.symm
      subst hq
      have hstart : trimStart ('"' :: left) = '"' :: left := List.dropWhile_cons_of_neg (by decide)
      have hend : trimEnd ('"' :: left) = '"' :: trimEnd left := trimEnd_append (u := []) (by decide) left
      obtain ⟨blanks, hblanks⟩ : ∃ blanks, trimEnd left ++ blanks = left := by
        have hreverse := List.takeWhile_append_dropWhile (p := isBlank) (l := left.reverse)
        refine ⟨(left.reverse.takeWhile isBlank).reverse, ?_⟩
        rw [trimEnd, dropEndWhile, ← List.reverse_append, hreverse, List.reverse_reverse]
      have hquoted : Literal.quoted? ('"' :: trimEnd left) = none := by
        have hsplit : '"' :: trimEnd left ++ (blanks ++ '=' :: '>' :: right) = Literal.quote s := by
          rw [hcs, List.cons_append, ← List.append_assoc, hblanks, List.cons_append]
        exact Literal.quoted?_of_append hsplit (by simp)
      rw [trim, hstart, hend, Literal.named?, hquoted]
      exact fun rest heq => absurd (List.cons.inj heq).1 (by decide)

theorem not_mem_flatMap_escapeChar {s : List Char} (h : '"' ∉ s) : '"' ∉ s.flatMap Literal.escapeChar := by
  rw [List.mem_flatMap]
  rintro ⟨c, hc, hmem⟩
  rcases Literal.escapeChar_cases c with ⟨hself, -, hquote⟩ | ⟨d, hpair, hd, -⟩
  · rw [hself, List.mem_singleton] at hmem
    exact hquote hmem.symm
  · rw [hpair, List.mem_cons, List.mem_singleton] at hmem
    rcases hmem with hslash | heq
    · exact absurd hslash (by decide)
    · exact h (hd heq.symm ▸ hc)

theorem splitPair?_of_splitFirst? {cs key following : List Char} (h : ¬ ShowsArrow ('"' :: cs))
    (hsplit : splitFirst? '"' cs = some (key, following)) :
    splitPair? ('"' :: cs) = (afterColon? following).map fun value => (String.ofList key, trim value) := by
  unfold splitPair?
  rw [splitArrow?_eq_none_iff.2 h]
  simp only [hsplit]

theorem splitPair?_quote_of_not_mem {s : List Char} (h : ¬ ShowsArrow (Literal.quote s)) (hquote : '"' ∉ s) :
    splitPair? (Literal.quote s) = none := by
  rw [Literal.quote, List.cons_append] at h ⊢
  rw [splitPair?_of_splitFirst? h (splitFirst?_append (not_mem_flatMap_escapeChar hquote) [])]
  rfl

/-- The key of a string that is taken for a pair ends with the backslash of its first quote. -/
theorem splitPair?_quote_append {key rest : List Char} (h : ¬ ShowsArrow (Literal.quote (key ++ '"' :: rest)))
    (hkey : '"' ∉ key) :
    splitPair? (Literal.quote (key ++ '"' :: rest)) =
      (afterColon? (rest.flatMap Literal.escapeChar ++ ['"'])).map fun value =>
        (String.ofList (key.flatMap Literal.escapeChar ++ ['\\']), trim value) := by
  have hstart : '"' ∉ key.flatMap Literal.escapeChar ++ ['\\'] := by
    simpa using not_mem_flatMap_escapeChar hkey
  have hinside : (key ++ '"' :: rest).flatMap Literal.escapeChar ++ ['"'] =
      (key.flatMap Literal.escapeChar ++ ['\\']) ++ '"' :: (rest.flatMap Literal.escapeChar ++ ['"']) := by
    simp [Literal.escapeChar]
  rw [Literal.quote, List.cons_append] at h ⊢
  exact splitPair?_of_splitFirst? h (hinside ▸ splitFirst?_append hstart _)

theorem head?_flatMap_escapeChar (s : List Char) :
    (s.flatMap Literal.escapeChar ++ ['"']).head? = some ':' ↔ s.head? = some ':' := by
  cases s with
  | nil => decide
  | cons c s =>
      rw [List.flatMap_cons, List.append_assoc]
      rcases Literal.escapeChar_cases c with ⟨hself, -, -⟩ | ⟨d, hpair, -, hback⟩
      · rw [hself, List.singleton_append, List.head?_cons, List.head?_cons]
      · have hcolon : c ≠ ':' := by
          rintro rfl
          exact absurd hpair (by simp [Literal.escapeChar])
        rw [hpair]
        simp [hcolon]

theorem afterColon?_ne_none_iff (cs : List Char) :
    afterColon? cs ≠ none ↔ ∃ rest, cs = ':' :: rest ∧ rest.head? ≠ some ':' := by
  unfold afterColon?
  split
  · simp
  · next rest hnot =>
      have hhead : rest.head? ≠ some ':' := fun h => by
        obtain ⟨more, hmore⟩ := List.head?_eq_some_iff.1 h
        exact hnot more (by rw [hmore])
      simp [hhead]
  · next hnot => simpa using fun rest h => absurd h (hnot rest)

/-- Escaping neither makes colons nor hides them. -/
theorem afterColon?_flatMap_escapeChar_ne_none_iff (s : List Char) :
    afterColon? (s.flatMap Literal.escapeChar ++ ['"']) ≠ none ↔ ∃ rest, s = ':' :: rest ∧ rest.head? ≠ some ':' := by
  have hhead := head?_flatMap_escapeChar s
  rw [afterColon?_ne_none_iff]
  by_cases hcolon : s.head? = some ':'
  · obtain ⟨rest, rfl⟩ := List.head?_eq_some_iff.1 hcolon
    have hself : (':' :: rest).flatMap Literal.escapeChar ++ ['"'] = ':' :: (rest.flatMap Literal.escapeChar ++ ['"']) := rfl
    simp only [hself, List.cons.injEq, true_and, exists_eq_left', ne_eq, head?_flatMap_escapeChar]
  · rw [← hhead] at hcolon
    refine iff_of_false ?_ ?_
    · rintro ⟨rest, h, -⟩
      exact hcolon (by rw [h]; rfl)
    · rintro ⟨rest, h, -⟩
      exact hcolon (hhead.2 (by rw [h]; rfl))

/-- A string that is taken for a pair gets a key that holds a backslash. -/
theorem takenForPair_of_splitPair?_eq_some {s value : List Char} {key : String}
    (h : splitPair? (Literal.quote s) = some (key, value)) : TakenForPair s ∧ '\\' ∈ key.toList := by
  have harrow : ¬ ShowsArrow (Literal.quote s) := fun harrow => by simp [splitPair?_quote_of_showsArrow harrow] at h
  have hquote : '"' ∈ s := by
    by_contra hquote
    simp [splitPair?_quote_of_not_mem harrow hquote] at h
  obtain ⟨start, rest, rfl, hstart⟩ := List.eq_append_cons_of_mem hquote
  rw [splitPair?_quote_append harrow hstart] at h
  obtain ⟨after, hafter, hpair⟩ := Option.map_eq_some_iff.1 h
  obtain ⟨more, rfl, hmore⟩ := (afterColon?_flatMap_escapeChar_ne_none_iff rest).1 (by simp [hafter])
  refine ⟨⟨harrow, start, more, rfl, hstart, hmore⟩, ?_⟩
  rw [← (Prod.mk.inj hpair).1, String.toList_ofList]
  simp

theorem splitPair?_quote_eq_none_iff (s : List Char) : splitPair? (Literal.quote s) = none ↔ ¬ TakenForPair s := by
  constructor
  · rintro hnone ⟨harrow, start, rest, rfl, hstart, hrest⟩
    rw [splitPair?_quote_append harrow hstart, Option.map_eq_none_iff] at hnone
    exact (afterColon?_flatMap_escapeChar_ne_none_iff (':' :: rest)).2 ⟨rest, rfl, hrest⟩ hnone
  · intro htaken
    cases hpair : splitPair? (Literal.quote s) with
    | none => rfl
    | some pair => exact absurd (takenForPair_of_splitPair?_eq_some hpair).1 htaken

end Arguments

end CodeAtlas
