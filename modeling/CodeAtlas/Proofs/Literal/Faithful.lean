import CodeAtlas.Proofs.Literal.Members
/-!
# Written data are read back

A written value is read back if and only if no pair of a hash in it shows an arrow (`Datum.Clear`), by induction over the
value: an array is cut into its members and a hash into its pairs, and each of these is read in turn. A list of arguments
is read back if moreover no option shows an arrow and no value by position is taken for a pair (`Datum.Misleads`). That
nothing else goes wrong is `ofText_written_iff`.
-/

namespace CodeAtlas

open CodeAtlas.Text

/-! ## Values -/

namespace Literal

theorem ofChars_of_list {cs : List Char} {items : List (List Char)} (htrim : trim cs = cs) (h : shape cs = .list items) :
    ofChars cs = .array (items.map ofChars) := by
  rw [← htrim] at h
  rw [ofChars]
  split <;> simp_all

theorem ofChars_of_pairs {cs : List Char} {entries : List (String × List Char)} (htrim : trim cs = cs)
    (h : shape cs = .pairs entries) : ofChars cs = .hash (entries.map fun entry => (entry.1, ofChars entry.2)) := by
  rw [← htrim] at h
  rw [ofChars]
  split
  · simp_all
  · simp_all
  · next read hread =>
      rw [h, Shape.pairs.injEq] at hread
      rw [hread, hash.injEq, ← List.attach_map_val (l := read)]

theorem keyword?_of_head {c : Char} (hc : c ∉ ['t', 'f', 'n']) (cs : List Char) : keyword? (c :: cs) = none := by
  simp only [List.mem_cons, List.not_mem_nil, or_false, not_or] at hc
  simp [keyword?, hc]

/-- What starts with a square or a curly bracket has values inside. -/
theorem leaf?_bracket {c : Char} (hc : c = '[' ∨ c = '\x7b') (cs : List Char) : leaf? (c :: cs) = none := by
  have hinteger : ∀ rest, Number.int64? (c :: rest) = none := fun rest => by
    have hnat : Number.nat? (c :: rest) = none := by
      rw [Number.nat?, if_pos]
      rcases hc with rfl | rfl <;> simp
    rcases hc with rfl | rfl <;> simp only [Number.int64?, hnat] <;> rfl
  have hbinary : ∀ rest, Number.Binary.ofText? (c :: rest) = none := fun rest => by
    rcases hc with rfl | rfl <;> rfl
  have hplain : (c :: cs).filter (· ≠ '_') = c :: cs.filter (· ≠ '_') :=
    List.filter_cons_of_pos (by rcases hc with rfl | rfl <;> decide)
  have hnumeric : numeric? (c :: cs) = none := by
    simp only [numeric?, hplain, hinteger, hbinary]
    rfl
  have hwords : wordList? (c :: cs) = none := by rcases hc with rfl | rfl <;> rfl
  have hkeyword : keyword? (c :: cs) = none := keyword?_of_head (by rcases hc with rfl | rfl <;> decide) cs
  have hnamed : named? (c :: cs) = none :=
    named?_of_head (by rcases hc with rfl | rfl <;> decide) (by rcases hc with rfl | rfl <;> decide) cs
  rw [leaf?, hnamed, hkeyword, hnumeric, hwords]
  rfl

theorem leaf?_numeral (n : Int64) : leaf? (toString n.toInt).toList = some (.int n.toInt) := by
  have hchar : ∀ c ∈ (toString n.toInt).toList, c ∉ ['"', '\'', ':', '_', 't', 'f', 'n'] := by
    intro c hc
    rcases Number.mem_toString hc with rfl | hdigit
    · decide
    · exact forall_nameChar (P := fun c => c.isDigit = true → c ∉ ['"', '\'', ':', '_', 't', 'f', 'n']) (by decide)
        (by simp [isNameChar, Char.isAlphanum, hdigit]) hdigit
  have hplain : (toString n.toInt).toList.filter (· ≠ '_') = (toString n.toInt).toList :=
    List.filter_eq_self.2 fun c hc => by
      have hne := hchar c hc
      simp only [List.mem_cons, not_or] at hne
      simp [hne]
  have hnumeric : numeric? (toString n.toInt).toList = some (.int n.toInt) := by
    simp only [numeric?, hplain]
    rw [Number.int64?_toString (Int64.le_toInt n) (Int64.toInt_le n)]
  obtain ⟨c, cs, hcs⟩ := List.exists_cons_of_ne_nil (Datum.solid_text (.int n)).ne_nil
  rw [Datum.text] at hcs
  have hc := hchar c (hcs ▸ List.mem_cons_self)
  simp only [List.mem_cons, List.not_mem_nil, or_false, not_or] at hc
  have hnamed : named? (c :: cs) = none := named?_of_head (by simp [Scan.isQuote, hc]) hc.2.2.1 cs
  rw [leaf?, hnumeric, hcs, hnamed, keyword?_of_head (by simp [hc])]
  rfl

end Literal

/-! ## Data -/

namespace Datum

/-- A value in whose hashes no pair shows an arrow. -/
inductive Clear : Datum → Prop
  | str (text : String) : Clear (.str text)
  | sym (name : Identifier) : Clear (.sym name)
  | int (value : Int64) : Clear (.int value)
  | bool (value : Bool) : Clear (.bool value)
  | nil : Clear .nil
  | array {items : List Datum} (h : ∀ item ∈ items, Clear item) : Clear (.array items)
  | hash {pairs : List (Identifier × Datum)} (harrow : ∀ pair ∈ pairs, ¬ ShowsArrow (pairText pair))
      (h : ∀ pair ∈ pairs, Clear pair.2) : Clear (.hash pairs)

/-- A value that is taken for a pair. -/
def Misleads : Datum → Prop
  | .str text => TakenForPair text.toList
  | _ => False

theorem clear_array_iff {items : List Datum} : Clear (.array items) ↔ ∀ item ∈ items, item.Clear :=
  ⟨fun | .array h => h, .array⟩

theorem clear_hash_iff {pairs : List (Identifier × Datum)} :
    Clear (.hash pairs) ↔ ∀ pair ∈ pairs, ¬ ShowsArrow (pairText pair) ∧ pair.2.Clear :=
  ⟨fun | .hash harrow h => fun pair hpair => ⟨harrow pair hpair, h pair hpair⟩,
    fun h => .hash (fun pair hpair => (h pair hpair).1) fun pair hpair => (h pair hpair).2⟩

/-- Without double quotes in its strings a value is clear. -/
theorem clear_of_strings {d : Datum} (h : ∀ s ∈ d.strings, '"' ∉ s.toList) : d.Clear := by
  induction d with
  | str text => exact .str text
  | sym name => exact .sym name
  | int value => exact .int value
  | bool value => exact .bool value
  | nil => exact .nil
  | array items ih =>
      rw [strings, itemStrings_eq_flatMap] at h
      exact .array fun item hitem => ih item hitem fun s hs => h s (List.mem_flatMap.2 ⟨item, hitem, hs⟩)
  | hash pairs ih =>
      rw [strings, pairStrings_eq_flatMap] at h
      have hpair : ∀ pair ∈ pairs, ∀ s ∈ pair.2.strings, '"' ∉ s.toList :=
        fun pair hpair s hs => h s (List.mem_flatMap.2 ⟨pair, hpair, hs⟩)
      exact .hash (fun pair hmem => not_showsArrow_pairText (hpair pair hmem)) fun pair hmem => ih pair hmem (hpair pair hmem)

theorem not_misleads_of_strings {d : Datum} (h : ∀ s ∈ d.strings, '"' ∉ s.toList) : ¬ d.Misleads := by
  cases d with
  | str text =>
      rintro ⟨-, key, rest, htext, -, -⟩
      exact h text (by simp [strings]) (by simp [htext])
  | _ => exact id

theorem splitPair?_text_of_not_str {d : Datum} (hd : ∀ text, d ≠ .str text) : Arguments.splitPair? d.text = none := by
  cases d with
  | str text => exact absurd rfl (hd text)
  | sym name => exact Arguments.splitPair?_colon (name.not_mem (by decide))
  | int value =>
      obtain ⟨c, cs, hcs⟩ := List.exists_cons_of_ne_nil (solid_text (.int value)).ne_nil
      have hc : c ∈ (toString value.toInt).toList := by
        rw [text] at hcs
        rw [hcs]
        exact List.mem_cons_self
      rw [hcs]
      rcases Number.mem_toString hc with rfl | hdigit
      · exact Arguments.splitPair?_of_head (by decide) (by decide) cs
      · have hhead := forall_nameChar (P := fun c => c.isDigit = true → (isBlank c = false ∧ Scan.isQuote c = false ∧
          c ≠ ':' ∧ c ≠ '=') ∧ (isLetter c || c == '_') = false) (by decide)
          (by simp [isNameChar, Char.isAlphanum, hdigit]) hdigit
        exact Arguments.splitPair?_of_head hhead.1 hhead.2 cs
  | bool value => cases value <;> decide
  | nil => decide
  | array items => exact Arguments.splitPair?_of_head (by decide) (by decide) _
  | hash pairs => exact Arguments.splitPair?_of_head (by decide) (by decide) _

theorem splitPair?_text_eq_none_iff (d : Datum) : Arguments.splitPair? d.text = none ↔ ¬ d.Misleads := by
  cases d with
  | str text => exact Arguments.splitPair?_quote_eq_none_iff text.toList
  | _ => simp [Misleads, splitPair?_text_of_not_str]

end Datum

/-! ## Reading back -/

namespace Arguments

theorem readPair?_pairText_iff (pair : Identifier × Datum) :
    readPair? (Datum.pairText pair) = some (Datum.pairLiteral pair) ↔
      ¬ ShowsArrow (Datum.pairText pair) ∧ Literal.ofChars pair.2.text = pair.2.literal := by
  by_cases h : ShowsArrow (Datum.pairText pair)
  · simp [readPair?, splitPair?_pairText_of_showsArrow h, h]
  · simp [readPair?, splitPair?_pairText h, h, Datum.pairLiteral]

end Arguments

namespace Literal

open Arguments

theorem ofChars_identifier (name : Identifier) : ofChars (':' :: name.name.toList) = .sym name.name := by
  rw [ofChars_colon (Datum.solid_identifier name).ne_nil, String.ofList_toList]
  intro c hc
  have halpha := isAlphanumeric_of_isIdentifierChar (name.chars c hc)
  rw [Bool.or_eq_true] at halpha
  refine ⟨?_, isBlank_of_isIdentifierChar (name.chars c hc)⟩
  simp only [isSymbolChar, Bool.or_eq_true]
  exact Or.inl (Or.inl (Or.inl halpha))

theorem ofChars_array (items : List Datum) :
    ofChars (Datum.array items).text = .array (items.map fun item => ofChars item.text) := by
  have hmember : ∀ text ∈ items.map Datum.text, Member text := List.forall_mem_map.2 fun item _ => item.member_text
  have hkeeps : Scan.Keeps Scan.step 1 { depth := 1 } (Datum.separated (items.map Datum.text)) { depth := 1 } :=
    Scan.keeps_separated (fun _ => rfl) (by decide) fun text htext => (hmember text htext).keeps (by decide)
  have hshape : shape (Datum.array items).text = .list (items.map Datum.text) := by
    rw [shape, Datum.text, Datum.texts_eq_map, List.cons_append, leaf?_bracket (Or.inl rfl), ← List.cons_append,
      Scan.unwrap?_bracket (by decide) (by decide) hkeeps]
    dsimp only
    rw [parts_separated hmember]
  rw [ofChars_of_list (Datum.solid_text _).trim_eq hshape, List.map_map]
  rfl

theorem ofChars_hash (pairs : List (Identifier × Datum)) :
    ofChars (Datum.hash pairs).text = .hash (pairs.filterMap fun pair => readPair? (Datum.pairText pair)) := by
  have hmember : ∀ text ∈ pairs.map Datum.pairText, Member text :=
    List.forall_mem_map.2 fun pair _ => Datum.member_pairText pair
  have hblank : Scan.Keeps Scan.step 1 { depth := 1 } [' '] { depth := 1 } :=
    Scan.keeps_plain (fun _ => rfl) (forall_mem_of_all (by decide)) 1
  have hkeeps : Scan.Keeps Scan.step 1 { depth := 1 } (' ' :: Datum.separated (pairs.map Datum.pairText) ++ [' '])
      { depth := 1 } :=
    hblank.append ((Scan.keeps_separated (fun _ => rfl) (by decide) fun text htext =>
      (hmember text htext).keeps (by decide)).append hblank)
  have hoptions : optionPieces (' ' :: Datum.separated (pairs.map Datum.pairText) ++ [' ']) =
      (pairs.map Datum.pairText).filterMap splitPair? := by
    rw [optionPieces_eq_filterMap, withoutParens_of_trim hmember (trim_separated hmember).2, parts_separated hmember]
  have hshape : shape (Datum.hash pairs).text = .pairs ((pairs.map Datum.pairText).filterMap splitPair?) := by
    have hsquare : ∀ cs, Scan.unwrap? '[' ']' ('\x7b' :: cs) = none := fun cs => by rw [Scan.unwrap?, if_neg (by simp)]
    rw [shape, Datum.text, Datum.pairTexts_eq_map, List.cons_append, leaf?_bracket (Or.inr rfl), hsquare,
      ← List.cons_append, Scan.unwrap?_bracket (by decide) (by decide) hkeeps]
    dsimp only
    rw [hoptions]
  rw [ofChars_of_pairs (Datum.solid_text _).trim_eq hshape, List.map_filterMap, List.filterMap_map]
  rfl

/-- A value is read back if and only if it is clear. -/
theorem ofChars_text_iff (d : Datum) : ofChars d.text = d.literal ↔ d.Clear := by
  induction d with
  | str text =>
      refine iff_of_true ?_ (.str text)
      rw [Datum.text, ofChars_quote, String.ofList_toList, Datum.literal]
  | sym name => exact iff_of_true (ofChars_identifier name) (.sym name)
  | int value =>
      refine iff_of_true (ofChars_of_leaf ?_) (.int value)
      rw [(Datum.solid_text (.int value)).trim_eq, Datum.text, leaf?_numeral, Datum.literal]
  | bool value =>
      refine iff_of_true (ofChars_of_leaf ?_) (.bool value)
      cases value <;> rfl
  | nil => exact iff_of_true (ofChars_of_leaf rfl) .nil
  | array items ih =>
      rw [ofChars_array, Datum.literal, Datum.literals_eq_map, Datum.clear_array_iff, array.injEq, List.map_inj_left]
      exact forall₂_congr ih
  | hash pairs ih =>
      rw [ofChars_hash, Datum.literal, Datum.pairLiterals_eq_map, Datum.clear_hash_iff, hash.injEq,
        List.filterMap_eq_map_iff_forall_eq_some]
      refine forall₂_congr fun pair hpair => ?_
      rw [readPair?_pairText_iff, ih pair hpair]

end Literal

namespace Arguments

/-- Values by position and then options by name, as they are written. -/
def written (positional : List Datum) (options : List (Identifier × Datum)) : List Char :=
  Datum.separated (positional.map Datum.text ++ options.map Datum.pairText)

theorem ofChars_written (positional : List Datum) (options : List (Identifier × Datum)) :
    ofChars (written positional options) =
      { positional := (positional.map Datum.text ++ options.map Datum.pairText).filterMap readValue?
        options := (positional.map Datum.text ++ options.map Datum.pairText).filterMap readPair? } := by
  have hmember : ∀ text ∈ positional.map Datum.text ++ options.map Datum.pairText, Member text :=
    List.forall_mem_append.2 ⟨List.forall_mem_map.2 fun d _ => d.member_text,
      List.forall_mem_map.2 fun pair _ => Datum.member_pairText pair⟩
  rw [written, ofChars_eq_filterMap, withoutParens_of_trim hmember (trim_separated hmember).1, parts_separated hmember]

/-- A misleading value by position is read as an option whose name is no identifier. -/
theorem backslash_mem_of_readPair? {d : Datum} {pair : String × Literal} (h : readPair? d.text = some pair) :
    '\\' ∈ pair.1.toList := by
  obtain ⟨⟨key, value⟩, hsplit, rfl⟩ := Option.map_eq_some_iff.1 h
  by_cases hstr : ∃ text, d = .str text
  · obtain ⟨text, rfl⟩ := hstr
    exact (takenForPair_of_splitPair?_eq_some hsplit).2
  · rw [Datum.splitPair?_text_of_not_str fun text heq => hstr ⟨text, heq⟩] at hsplit
    exact absurd hsplit (by simp)

theorem readPair?_text_eq_none_iff (d : Datum) : readPair? d.text = none ↔ ¬ d.Misleads := by
  rw [readPair?, Option.map_eq_none_iff, Datum.splitPair?_text_eq_none_iff]

theorem readValue?_eq_none_of_readPair? {text : List Char} {pair : String × Literal} (h : readPair? text = some pair) :
    readValue? text = none := by
  obtain ⟨halves, hsplit, -⟩ := Option.map_eq_some_iff.1 h
  simp [readValue?, hsplit]

theorem readValue?_eq_some_of_readPair? {text : List Char} (h : readPair? text = none) :
    readValue? text = some (Literal.ofChars text) := by
  rw [readPair?, Option.map_eq_none_iff] at h
  simp [readValue?, h]

/-- The options are read back if and only if no value by position is taken for one and every option is clear. -/
theorem options_ofChars_written_iff (positional : List Datum) (options : List (Identifier × Datum)) :
    (ofChars (written positional options)).options = options.map Datum.pairLiteral ↔
      (∀ d ∈ positional, ¬ d.Misleads) ∧
        ∀ pair ∈ options, ¬ ShowsArrow (Datum.pairText pair) ∧ pair.2.Clear := by
  have hpair : ∀ pair : Identifier × Datum, readPair? (Datum.pairText pair) = some (Datum.pairLiteral pair) ↔
      ¬ ShowsArrow (Datum.pairText pair) ∧ pair.2.Clear := fun pair => by
    rw [readPair?_pairText_iff, Literal.ofChars_text_iff]
  have hsplit : (ofChars (written positional options)).options =
      positional.filterMap (fun d => readPair? d.text) ++
        options.filterMap (fun pair => readPair? (Datum.pairText pair)) := by
    rw [ofChars_written]
    dsimp only
    rw [List.filterMap_append, List.filterMap_map, List.filterMap_map]
    rfl
  have hnone : positional.filterMap (fun d => readPair? d.text) = [] ↔ ∀ d ∈ positional, ¬ d.Misleads := by
    rw [List.filterMap_eq_nil_iff]
    exact forall₂_congr fun d _ => readPair?_text_eq_none_iff d
  rw [hsplit]
  constructor
  · intro h
    have hempty : positional.filterMap (fun d => readPair? d.text) = [] := by
      rw [List.eq_nil_iff_forall_not_mem]
      intro pair hmem
      obtain ⟨d, -, hd⟩ := List.mem_filterMap.1 hmem
      have hwritten : pair ∈ options.map Datum.pairLiteral := h ▸ List.mem_append_left _ hmem
      obtain ⟨option, -, rfl⟩ := List.mem_map.1 hwritten
      exact option.1.not_mem (by decide) (backslash_mem_of_readPair? hd)
    rw [hempty, List.nil_append, List.filterMap_eq_map_iff_forall_eq_some] at h
    exact ⟨hnone.1 hempty, fun pair hmem => (hpair pair).1 (h pair hmem)⟩
  · rintro ⟨hpositional, hoptions⟩
    rw [hnone.2 hpositional, List.nil_append, List.filterMap_eq_map_iff_forall_eq_some]
    exact fun pair hmem => (hpair pair).2 (hoptions pair hmem)

/-- The values by position, where all arguments are told apart. -/
theorem positional_ofChars_written {positional : List Datum} {options : List (Identifier × Datum)}
    (h : ∀ d ∈ positional, ¬ d.Misleads)
    (hoptions : ∀ pair ∈ options, ¬ ShowsArrow (Datum.pairText pair) ∧ pair.2.Clear) :
    (ofChars (written positional options)).positional = positional.map fun d => Literal.ofChars d.text := by
  have hnone : options.filterMap (fun pair => readValue? (Datum.pairText pair)) = [] := by
    rw [List.filterMap_eq_nil_iff]
    intro pair hmem
    refine readValue?_eq_none_of_readPair? ((readPair?_pairText_iff pair).2 ⟨(hoptions pair hmem).1, ?_⟩)
    exact (Literal.ofChars_text_iff pair.2).2 (hoptions pair hmem).2
  have hall : positional.filterMap (fun d => readValue? d.text) = positional.map fun d => Literal.ofChars d.text := by
    rw [List.filterMap_eq_map_iff_forall_eq_some]
    exact fun d hd => readValue?_eq_some_of_readPair? ((readPair?_text_eq_none_iff d).2 (h d hd))
  rw [ofChars_written]
  dsimp only
  rw [List.filterMap_append, List.filterMap_map, List.filterMap_map]
  change positional.filterMap (fun d => readValue? d.text) ++
    options.filterMap (fun pair => readValue? (Datum.pairText pair)) = _
  rw [hnone, hall, List.append_nil]

/-- Written arguments are read back, all of them and in order, if and only if no hash and no option shows an arrow and no
string by position is taken for a pair. So they are where no string holds a double quote. -/
theorem ofText_written_iff (positional : List Datum) (options : List (Identifier × Datum)) :
    (ofText (String.ofList (written positional options)) =
        { positional := positional.map Datum.literal, options := options.map Datum.pairLiteral } ↔
      (∀ d ∈ positional, d.Clear ∧ ¬ d.Misleads) ∧
        ∀ pair ∈ options, ¬ ShowsArrow (Datum.pairText pair) ∧ pair.2.Clear) ∧
    ((∀ d ∈ positional ++ options.map Prod.snd, ∀ s ∈ d.strings, '"' ∉ s.toList) →
      ofText (String.ofList (written positional options)) =
        { positional := positional.map Datum.literal, options := options.map Datum.pairLiteral }) := by
  have hiff : ofText (String.ofList (written positional options)) =
        { positional := positional.map Datum.literal, options := options.map Datum.pairLiteral } ↔
      (∀ d ∈ positional, d.Clear ∧ ¬ d.Misleads) ∧
        ∀ pair ∈ options, ¬ ShowsArrow (Datum.pairText pair) ∧ pair.2.Clear := by
    have hclear : (positional.map fun d => Literal.ofChars d.text) = positional.map Datum.literal ↔
        ∀ d ∈ positional, d.Clear := by
      rw [List.map_inj_left]
      exact forall₂_congr fun d _ => Literal.ofChars_text_iff d
    rw [ofText, String.toList_ofList]
    constructor
    · intro h
      obtain ⟨hmisleads, hoptions⟩ := (options_ofChars_written_iff positional options).1 (congrArg Arguments.options h)
      have hvalues := congrArg Arguments.positional h
      rw [positional_ofChars_written hmisleads hoptions] at hvalues
      exact ⟨fun d hd => ⟨hclear.1 hvalues d hd, hmisleads d hd⟩, hoptions⟩
    · rintro ⟨hpositional, hoptions⟩
      have hmisleads : ∀ d ∈ positional, ¬ d.Misleads := fun d hd => (hpositional d hd).2
      have hvalues := positional_ofChars_written hmisleads hoptions
      rw [hclear.2 fun d hd => (hpositional d hd).1] at hvalues
      rw [← hvalues, ← (options_ofChars_written_iff positional options).2 ⟨hmisleads, hoptions⟩]
  refine ⟨hiff, fun h => hiff.2 ⟨fun d hd => ?_, fun pair hpair => ?_⟩⟩
  · have hd := h d (List.mem_append_left _ hd)
    exact ⟨Datum.clear_of_strings hd, Datum.not_misleads_of_strings hd⟩
  · have hvalue := h pair.2 (List.mem_append_right _ (List.mem_map_of_mem hpair))
    exact ⟨not_showsArrow_pairText hvalue, Datum.clear_of_strings hvalue⟩

/-- The identifier `key`. -/
def keyIdentifier : Identifier := ⟨"key", by decide, forall_mem_of_all (by decide)⟩

theorem ofText_written_iff_nested :
    written [.str "a => b, [c"] [(keyIdentifier, .array [.int (-1), .hash [(keyIdentifier, .nil)]])] =
        "\"a => b, [c\", key: [-1, \x7b key: nil \x7d]".toList ∧
      ofText (String.ofList
        (written [.str "a => b, [c"] [(keyIdentifier, .array [.int (-1), .hash [(keyIdentifier, .nil)]])])) =
        { positional := [.str "a => b, [c"], options := [("key", .array [.int (-1), .hash [("key", .nil)]])] } := by
  refine ⟨by decide, (ofText_written_iff _ _).2 ?_⟩
  decide

/-- An arrow behind an escaped quote: the option `key` with the value `x" => y` is lost. -/
theorem exists_written_not_read : ∃ positional options,
    ofText (String.ofList (written positional options)) ≠
      { positional := positional.map Datum.literal, options := options.map Datum.pairLiteral } := by
  have harrow : ShowsArrow (Datum.pairText (keyIdentifier, .str "x\" => y")) :=
    ⟨"key: \"x\\\" ".toList, " y\"".toList, by decide, by decide⟩
  refine ⟨[], [(keyIdentifier, .str "x\" => y")], fun h => ?_⟩
  rw [ofText, String.toList_ofList] at h
  have hoptions := (options_ofChars_written_iff [] _).1 (congrArg Arguments.options h)
  exact (hoptions.2 _ List.mem_cons_self).1 harrow

end Arguments

end CodeAtlas
