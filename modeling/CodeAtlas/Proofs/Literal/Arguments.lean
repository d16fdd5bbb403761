import CodeAtlas.Literal.Reader
import CodeAtlas.Proofs.Text.Names
import CodeAtlas.Proofs.Text.Parts
/-!
# Arguments that were written

A symbol, or an option whose value is a symbol or a quoted string, is read back as it was written, and a list of
them is cut at the commas between them. `Scan.Passes` says of a text that a scan gets through it without a separator;
texts that bring the scan back to where it began can be joined with separators and are split there again. What a string
holds is found again by resolving the backslashes (`Literal.unescape_flatMap_escapeChar`).
-/

namespace CodeAtlas

open CodeAtlas.Text

namespace Scan

/-- From one state to another a text is passed over, and no character of it separates. -/
inductive Passes (sep : Char) : Scan → List Char → Scan → Prop
  | nil (s : Scan) : Passes sep s [] s
  | cons {s t : Scan} {c : Char} {cs : List Char} (hc : s.divides sep c = false) (hcs : Passes sep (s.step c) cs t) :
      Passes sep s (c :: cs) t

variable {sep : Char} {s t : Scan}

theorem Passes.append {w : Scan} {u v : List Char} (hu : Passes sep s u t) (hv : Passes sep t v w) :
    Passes sep s (u ++ v) w := by
  induction hu with
  | nil s => exact hv
  | cons hc _ ih => exact .cons hc (ih hv)

theorem splitFrom_ne_nil (sep : Char) (s : Scan) (cs : List Char) : splitFrom sep s cs ≠ [] := by
  cases cs with
  | nil => simp [splitFrom]
  | cons c cs =>
      rw [splitFrom]
      split
      · simp
      · split <;> simp

/-- What is passed over belongs to the first part. -/
theorem Passes.splitFrom_append {u : List Char} (hu : Passes sep s u t) (v : List Char) :
    splitFrom sep s (u ++ v) = (splitFrom sep t v).modifyHead (u ++ ·) := by
  induction hu with
  | nil s =>
      cases h : splitFrom sep s v with
      | nil => exact absurd h (splitFrom_ne_nil _ _ _)
      | cons part parts => simp [h]
  | cons hc _ ih =>
      rw [List.cons_append, splitFrom, if_neg (by simp [hc]), ih]
      cases h : splitFrom sep _ v with
      | nil => exact absurd h (splitFrom_ne_nil _ _ _)
      | cons part parts => simp

theorem Passes.splitTop_eq {u : List Char} (hu : Passes sep {} u t) : splitTop sep u = [u] := by
  have h := hu.splitFrom_append []
  rwa [List.append_nil, splitFrom, List.modifyHead_cons, List.append_nil] at h

theorem Passes.splitTop_append {u : List Char} (hsep : isStructural sep = false) (hu : Passes sep {} u {}) (v : List Char) :
    splitTop sep (u ++ sep :: v) = u :: splitTop sep v := by
  rw [splitTop, hu.splitFrom_append, splitFrom, if_pos (by simp [divides, hsep]), List.modifyHead_cons, List.append_nil,
    splitTop]

/-- Texts joined with separators are split there. -/
theorem splitTop_flatMap {α : Type*} (hsep : isStructural sep = false) {u : List Char} (hu : Passes sep {} u {})
    {text : α → List Char} {items : List α} (hitems : ∀ a ∈ items, Passes sep {} (text a) {}) :
    splitTop sep (u ++ items.flatMap fun a => sep :: text a) = u :: items.map text := by
  induction items generalizing u with
  | nil => simpa using hu.splitTop_eq
  | cons a items ih =>
      rw [List.flatMap_cons, List.cons_append, hu.splitTop_append hsep,
        ih (hitems a List.mem_cons_self) fun b hb => hitems b (List.mem_cons_of_mem _ hb), List.map_cons]

/-- Characters without a meaning of their own are passed over outside strings. -/
theorem passes_of_forall {cs : List Char} (h : ∀ c ∈ cs, c ≠ sep ∧ isStructural c = false) : Passes sep {} cs {} := by
  induction cs with
  | nil => exact .nil _
  | cons c cs ih =>
      obtain ⟨hc, hcs⟩ := List.forall_mem_cons.1 h
      have hstep : step {} c = {} := by
        have hplain := hc.2
        simp only [isStructural, Bool.or_eq_false_iff] at hplain
        simp [step, hplain]
      refine .cons (by simp [divides, hc.1]) ?_
      rw [hstep]
      exact ih hcs

/-- Inside a string everything is passed over that neither ends nor hides its end. -/
theorem passes_inside {cs : List Char} {q : Char} (h : ∀ c ∈ cs, c ≠ '\\' ∧ c ≠ q) :
    Passes sep { quote := some q } cs { quote := some q } := by
  induction cs with
  | nil => exact .nil _
  | cons c cs ih =>
      obtain ⟨hc, hcs⟩ := List.forall_mem_cons.1 h
      refine .cons (by simp [divides]) ?_
      rw [show step { quote := some q } c = { quote := some q } by simp [step, hc.1, hc.2]]
      exact ih hcs

theorem passes_quoted {cs : List Char} (hsep : isStructural sep = false) (h : ∀ c ∈ cs, c ≠ '\\' ∧ c ≠ '"') :
    Passes sep {} ('"' :: cs ++ ['"']) {} := by
  have hquote : '"' ≠ sep := by
    rintro rfl
    exact absurd hsep (by decide)
  refine .cons (by simp [divides, hquote]) ?_
  exact (passes_inside h).append (.cons (by simp [divides]) (.nil _))

end Scan

/-! ## Strings in quotes -/

namespace Literal

/-- A character inside double quotes. -/
def escapeChar (c : Char) : List Char :=
  if c = '\\' then ['\\', '\\']
  else if c = '"' then ['\\', '"']
  else if c = '\n' then ['\\', 'n']
  else if c = '\t' then ['\\', 't']
  else [c]

/-- A text between double quotes. -/
def quote (cs : List Char) : List Char := '"' :: cs.flatMap escapeChar ++ ['"']

/-- A character stands for itself, or a backslash and a letter for it stand for it. -/
theorem escapeChar_cases (c : Char) :
    (escapeChar c = [c] ∧ c ≠ '\\' ∧ c ≠ '"') ∨
      ∃ d, escapeChar c = ['\\', d] ∧ (d = '"' → c = '"') ∧ ∀ cs, unescape ('\\' :: d :: cs) = c :: unescape cs := by
  unfold escapeChar
  split
  · next h => exact Or.inr ⟨'\\', rfl, fun hd => absurd hd (by decide), fun cs => by simp [unescape, h]⟩
  · next hslash =>
      split
      · next h => exact Or.inr ⟨'"', rfl, fun _ => h, fun cs => by simp [unescape, h]⟩
      · next hquote =>
          split
          · next h => exact Or.inr ⟨'n', rfl, fun hd => absurd hd (by decide), fun cs => by simp [unescape, h]⟩
          · split
            · next h => exact Or.inr ⟨'t', rfl, fun hd => absurd hd (by decide), fun cs => by simp [unescape, h]⟩
            · exact Or.inl ⟨rfl, hslash, hquote⟩

theorem unescape_cons {c : Char} (h : c ≠ '\\') (cs : List Char) : unescape (c :: cs) = c :: unescape cs := by
  rw [unescape] <;> simp [h]

theorem unescape_flatMap_escapeChar (cs : List Char) : unescape (cs.flatMap escapeChar) = cs := by
  induction cs with
  | nil => rfl
  | cons c cs ih =>
      rw [List.flatMap_cons]
      rcases escapeChar_cases c with ⟨hself, hslash, -⟩ | ⟨d, hpair, -, hback⟩
      · rw [hself, List.singleton_append, unescape_cons hslash, ih]
      · rw [hpair, List.cons_append, List.singleton_append, hback, ih]

theorem quoteRest_flatMap_escapeChar (cs rest : List Char) :
    quoteRest '"' false (cs.flatMap escapeChar ++ '"' :: rest) = some (cs.flatMap escapeChar, rest) := by
  induction cs with
  | nil => simp [quoteRest]
  | cons c cs ih =>
      rw [List.flatMap_cons, List.append_assoc]
      rcases escapeChar_cases c with ⟨hself, hslash, hquote⟩ | ⟨d, hpair, -, -⟩
      · rw [hself, List.singleton_append, quoteRest, if_neg hslash, if_neg hquote, ih]
        rfl
      · rw [hpair, List.cons_append, List.singleton_append, quoteRest, if_pos rfl, quoteRest, ih]
        rfl

theorem quoted?_quote (cs : List Char) : quoted? (quote cs) = some (cs.flatMap escapeChar) := by
  rw [quote, List.cons_append, quoted?, if_pos (by decide), quoteRest_flatMap_escapeChar]

/-- A string that ends goes on to end there, whatever follows. -/
theorem quoteRest_append_right {q : Char} {escaped : Bool} {cs inside rest : List Char}
    (h : quoteRest q escaped cs = some (inside, rest)) (more : List Char) :
    quoteRest q escaped (cs ++ more) = some (inside, rest ++ more) := by
  fun_induction quoteRest q escaped cs generalizing inside with
  | case1 => simp at h
  | case2 c cs ih =>
      obtain ⟨i, ho, rfl⟩ := exists_of_map_cons h
      rw [List.cons_append, quoteRest, ih ho]
      rfl
  | case3 cs ih =>
      obtain ⟨i, ho, rfl⟩ := exists_of_map_cons h
      rw [List.cons_append, quoteRest, if_pos rfl, ih ho]
      rfl
  | case4 cs hslash =>
      rw [List.cons_append, quoteRest, if_neg hslash, if_pos rfl]
      simp only [Option.some.injEq, Prod.mk.injEq] at h
      rw [← h.1, ← h.2]
  | case5 c cs hslash hquote ih =>
      obtain ⟨i, ho, rfl⟩ := exists_of_map_cons h
      rw [List.cons_append, quoteRest, if_neg hslash, if_neg hquote, ih ho]
      rfl

/-- No beginning of a quoted text is a quoted text. -/
theorem quoted?_of_append {cs start rest : List Char} (h : start ++ rest = quote cs) (hrest : rest ≠ []) :
    quoted? start = none := by
  cases start with
  | nil => rfl
  | cons q start =>
      rw [quote, List.cons_append, List.cons_append, List.cons.injEq] at h
      obtain ⟨rfl, h⟩ := h
      rw [quoted?, if_pos (by decide)]
      split
      · next inside hinside =>
          have hlonger := quoteRest_append_right hinside rest
          rw [h, quoteRest_flatMap_escapeChar, Option.some.injEq, Prod.mk.injEq] at hlonger
          exact absurd hlonger.2.symm hrest
      · rfl

/-! ## Values -/

theorem ofChars_of_leaf {cs : List Char} {value : Literal} (h : leaf? (trim cs) = some value) : ofChars cs = value := by
  have hshape : shape (trim cs) = .leaf value := by rw [shape, h]
  rw [ofChars]
  split <;> simp_all

variable {cs : List Char}

theorem ofChars_of_named {value : Literal} (hfirst : ∀ c ∈ cs.head?, isBlank c = false)
    (hlast : ∀ c ∈ cs.getLast?, isBlank c = false) (h : named? cs = some value) : ofChars cs = value := by
  apply ofChars_of_leaf
  rw [trim_eq_self hfirst hlast, leaf?, h, Option.some_or]

theorem quoted?_of_head {c : Char} (hc : Scan.isQuote c = false) (cs : List Char) : quoted? (c :: cs) = none := by
  rw [quoted?, if_neg (by simp [hc])]

theorem isSymbolChar_of_isNameChar {c : Char} (h : isNameChar c = true) : isSymbolChar c = true := by
  have hword := isAlphanumeric_of_isNameChar h
  simp only [Bool.or_eq_true] at hword
  simp only [isSymbolChar, Bool.or_eq_true]
  exact Or.inl (Or.inl (Or.inl hword))

theorem ofChars_quote (cs : List Char) : ofChars (quote cs) = .str (String.ofList cs) := by
  refine ofChars_of_named (by rintro c ⟨⟩; decide) ?_ ?_
  · intro c hc
    rw [quote, List.getLast?_concat, Option.mem_some_iff] at hc
    subst hc
    decide
  unfold named?
  rw [quoted?_quote]
  dsimp only
  rw [unescape_flatMap_escapeChar]

theorem flatMap_escapeChar_of_plain (h : Plain cs) : cs.flatMap escapeChar = cs := by
  induction cs with
  | nil => rfl
  | cons c cs ih =>
      obtain ⟨hc, hcs⟩ := List.forall_mem_cons.1 h
      have hne : ∀ x, isNameChar x = false → c ≠ x := fun x => ne_of_isNameChar hc
      have hself : escapeChar c = [c] := by
        simp [escapeChar, hne '\\' (by decide), hne '"' (by decide), hne '\n' (by decide), hne '\t' (by decide)]
      rw [List.flatMap_cons, hself, ih hcs, List.singleton_append]

/-- A plain name in quotes is a string. -/
theorem ofChars_quoted (h : Plain cs) : ofChars ('"' :: cs ++ ['"']) = .str (String.ofList cs) := by
  have hquote := ofChars_quote cs
  rwa [quote, flatMap_escapeChar_of_plain h] at hquote

theorem ofChars_colon (hne : cs ≠ []) (h : ∀ c ∈ cs, isSymbolChar c = true ∧ isBlank c = false) :
    ofChars (':' :: cs) = .sym (String.ofList cs) := by
  have htrim : trim cs = cs :=
    trim_eq_self (fun c hc => (h c (List.mem_of_mem_head? hc)).2) fun c hc => (h c (List.mem_of_getLast? hc)).2
  have hall : cs.all isSymbolChar = true := List.all_eq_true.2 fun c hc => (h c hc).1
  have hquote : quoted? cs = none := by
    obtain ⟨c, cs, rfl⟩ := List.exists_cons_of_ne_nil hne
    refine quoted?_of_head ?_ cs
    have hsymbol := (h c List.mem_cons_self).1
    rw [Scan.isQuote, Bool.or_eq_false_iff, beq_eq_false_iff_ne, beq_eq_false_iff_ne]
    constructor <;> (rintro rfl; exact absurd hsymbol (by decide))
  refine ofChars_of_named (by simp; decide) ?_ ?_
  · intro c hc
    rw [List.getLast?_cons_of_ne_nil hne] at hc
    exact (h c (List.mem_of_getLast? hc)).2
  · rw [named?, quoted?_of_head (by decide)]
    dsimp only
    rw [htrim, hquote]
    simp [hne, hall]

/-- A plain name after a colon is a symbol. -/
theorem ofChars_symbol (h : Plain cs) (hne : cs ≠ []) : ofChars (':' :: cs) = .sym (String.ofList cs) :=
  ofChars_colon hne fun c hc => ⟨isSymbolChar_of_isNameChar (h c hc), isBlank_of_isNameChar (h c hc)⟩

end Literal

/-! ## Pieces -/

namespace Arguments

variable {cs key value : List Char}

theorem splitArrow?_of_not_mem {quote : Option Char} {depth : Int} (h : '=' ∉ cs) : splitArrow? quote depth cs = none := by
  fun_induction splitArrow? quote depth cs with
  | case1 => rfl
  | case2 depth q c cs ih =>
      rw [ih fun hmem => h (List.mem_cons_of_mem _ hmem)]
      rfl
  | case3 => simp at h
  | case4 depth c cs _ _ _ ih =>
      dsimp only
      rw [ih fun hmem => h (List.mem_cons_of_mem _ hmem)]
      rfl

theorem splitPair?_colon (h : '=' ∉ cs) : splitPair? (':' :: cs) = none := by
  unfold splitPair?
  rw [splitArrow?_of_not_mem (by simpa using h)]
  rfl

/-- A symbol stands by its position. -/
theorem ofChars_colon (h : '=' ∉ cs) : Piece.ofChars (':' :: cs) = .positional (':' :: cs) := by
  rw [Piece.ofChars, splitPair?_colon h]

theorem isKeyChar_of_isNameChar {c : Char} (h : isNameChar c = true) : isKeyChar c = true := by
  have hword := isAlphanumeric_of_isNameChar h
  simp only [Bool.or_eq_true] at hword
  simp only [isKeyChar, Bool.or_eq_true]
  exact Or.inl (Or.inl hword)

theorem plainKey?_append {c : Char} (hc : (isLetter c || c == '_') = true) (hkey : ∀ d ∈ key, isKeyChar d = true)
    (rest : List Char) : plainKey? (c :: key ++ ':' :: rest) = some (c :: key, ':' :: rest) := by
  have hcolon : ∀ d ∈ (':' :: rest).head?, isKeyChar d = false := by
    rintro d ⟨⟩
    decide
  rw [List.cons_append, plainKey?, if_pos hc, takeWhile_append_stop hkey hcolon, dropWhile_append_stop hkey hcolon]

/-- A key, a colon and a value are a pair where no arrow cuts them. -/
theorem splitPair?_key {c : Char} (hc : (isLetter c || c == '_') = true) (hkey : ∀ d ∈ key, isKeyChar d = true)
    (harrow : splitArrow? none 0 (c :: key ++ ':' :: ' ' :: value) = none)
    (hfirst : ∀ d ∈ value.head?, isBlank d = false) (hlast : ∀ d ∈ value.getLast?, isBlank d = false) :
    splitPair? (c :: key ++ ':' :: ' ' :: value) = some (String.ofList (c :: key), value) := by
  have hblank : trim (' ' :: value) = value := trim_cons_blank (by decide) hfirst hlast
  unfold splitPair?
  rw [harrow]
  dsimp only
  split
  · next rest hquote =>
      rw [List.cons_append, List.cons.injEq] at hquote
      exact absurd hc (hquote.1 ▸ by decide)
  · rw [plainKey?_append hc hkey]
    simp [afterColon?, hblank]

/-- A plain name, a colon and a value are an option. -/
theorem ofChars_pair {c : Char} (hc : (isLetter c || c == '_') = true) (hkey : Plain (c :: key)) (harrow : '=' ∉ value)
    (hfirst : ∀ d ∈ value.head?, isBlank d = false) (hlast : ∀ d ∈ value.getLast?, isBlank d = false) :
    Piece.ofChars (c :: key ++ ':' :: ' ' :: value) = .option (String.ofList (c :: key)) value := by
  have hequals : '=' ∉ c :: key ++ ':' :: ' ' :: value := by
    have hnot := hkey.not_mem (by decide : isNameChar '=' = false)
    simp only [List.mem_append, List.mem_cons, not_or] at hnot ⊢
    exact ⟨hnot, by decide, by decide, harrow⟩
  have hkeys : ∀ d ∈ key, isKeyChar d = true := fun d hd => isKeyChar_of_isNameChar (hkey d (List.mem_cons_of_mem _ hd))
  rw [Piece.ofChars, splitPair?_key hc hkeys (splitArrow?_of_not_mem hequals) hfirst hlast]

end Arguments

end CodeAtlas
