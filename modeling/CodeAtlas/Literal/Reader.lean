import CodeAtlas.Literal.Basic
import CodeAtlas.Literal.Scan
/-!
# Reading literals and argument lists

`Literal.ofText` reads one value, `Arguments.ofText` the text between the name of a call and its end. A text is
first sorted by its shape: a value that can be read at once, a list of texts, or pairs of names and texts. The texts inside
are shorter than the whole, so reading them in turn comes to an end.
-/

namespace CodeAtlas

open CodeAtlas.Text

namespace Literal

/-- The inside of a string after its opening quote, and what follows its closing quote. -/
def quoteRest (q : Char) : Bool → List Char → Option (List Char × List Char)
  | _, [] => none
  | true, c :: cs => (quoteRest q false cs).map fun (inside, rest) => (c :: inside, rest)
  | false, c :: cs =>
    if c = '\\' then (quoteRest q true cs).map fun (inside, rest) => (c :: inside, rest)
    else if c = q then some ([], cs)
    else (quoteRest q false cs).map fun (inside, rest) => (c :: inside, rest)

/-- The inside of a text that is one quoted string as a whole. -/
def quoted? (cs : List Char) : Option (List Char) :=
  match cs with
  | q :: rest =>
    if Scan.isQuote q then
      match quoteRest q false rest with
      | some (inside, []) => some inside
      | _ => none
    else none
  | [] => none

/-- Resolves backslashes: `\n` and `\t` are line feed and tab, any other character stands for itself. -/
def unescape : List Char → List Char
  | [] => []
  | ['\\'] => []
  | '\\' :: 'n' :: cs => '\n' :: unescape cs
  | '\\' :: 't' :: cs => '\t' :: unescape cs
  | '\\' :: c :: cs => c :: unescape cs
  | c :: cs => c :: unescape cs

/-- Characters of a symbol that needs no quotes. -/
def isSymbolChar (c : Char) : Bool :=
  isAlphanumeric c || c == '_' || c == '?' || c == '!' || c == '='

/-- A quoted string or a symbol. -/
def named? (cs : List Char) : Option Literal :=
  match quoted? cs with
  | some inside => some (.str (String.ofList (unescape inside)))
  | none =>
    match cs with
    | ':' :: rest =>
      match quoted? (trim rest) with
      | some inside => some (.sym (String.ofList (unescape inside)))
      | none =>
        if !rest.isEmpty && rest.all isSymbolChar then some (.sym (String.ofList rest)) else none
    | _ => none

/-- One of the fixed words. -/
def keyword? (cs : List Char) : Option Literal :=
  if cs = "true".toList then some (.bool true)
  else if cs = "false".toList then some (.bool false)
  else if cs = "nil".toList || cs.isEmpty then some .nil
  else none

/-- A number; underscores between digits do not count. -/
def numeric? (cs : List Char) : Option Literal :=
  let plain := cs.filter (· ≠ '_')
  match Number.int64? plain with
  | some n => some (.int n)
  | none =>
    if (Number.Binary.ofText? plain).isSome && plain.any Char.isDigit then some (.number (String.ofList cs))
    else none

/-- The words of a word list, up to its closing brackets. -/
def listed (wrap : String → Literal) (cs : List Char) : Literal :=
  .array ((words (dropEndWhile (fun c => c == ']' || c == ')') cs)).map fun w => wrap (String.ofList w))

/-- A list of words written without quotes. -/
def wordList? : List Char → Option Literal
  | '%' :: 'w' :: '[' :: cs => some (listed .str cs)
  | '%' :: 'w' :: '(' :: cs => some (listed .str cs)
  | '%' :: 'i' :: '[' :: cs => some (listed .sym cs)
  | '%' :: 'i' :: '(' :: cs => some (listed .sym cs)
  | _ => none

/-- The values that have no values inside. -/
def leaf? (cs : List Char) : Option Literal :=
  (named? cs).or <| (keyword? cs).or <| (numeric? cs).or (wordList? cs)

end Literal

namespace Arguments

/-- Splits at the first arrow outside brackets. Quotes are respected, but a backslash hides none. -/
def splitArrow? : Option Char → Int → List Char → Option (List Char × List Char)
  | _, _, [] => none
  | some q, depth, c :: cs =>
    (splitArrow? (if c = q then none else some q) depth cs).map fun (l, r) => (c :: l, r)
  | none, depth, c :: cs =>
    match c, cs, depth == 0 with
    | '=', '>' :: rest, true => some ([], rest)
    | _, _, _ =>
      let quote := if Scan.isQuote c then some c else none
      let depth :=
        if Scan.isOpening c then depth + 1 else if Scan.isClosing c then depth - 1 else depth
      (splitArrow? quote depth cs).map fun (l, r) => (c :: l, r)

/-- A colon that is not doubled, and what follows it. -/
def afterColon? : List Char → Option (List Char)
  | ':' :: ':' :: _ => none
  | ':' :: cs => some cs
  | _ => none

/-- Characters of a key after the first. -/
def isKeyChar (c : Char) : Bool := isAlphanumeric c || c == '_' || c == '?' || c == '!'

/-- A key that is a plain name, and what follows it. -/
def plainKey? : List Char → Option (List Char × List Char)
  | [] => none
  | c :: cs =>
    if isLetter c || c == '_' then some (c :: cs.takeWhile isKeyChar, cs.dropWhile isKeyChar) else none

/-- The key and the value text of `key: value`, `"key": value`, `:key => value` and `"key" => value`. -/
def splitPair? (cs : List Char) : Option (String × List Char) :=
  match splitArrow? none 0 cs with
  | some (left, right) => ((Literal.named? (trim left)).bind (·.name?)).map fun key => (key, trim right)
  | none =>
    match cs with
    | '"' :: rest =>
      match splitFirst? '"' rest with
      | some (key, following) =>
        (afterColon? following).map fun value => (String.ofList key, trim value)
      | none => none
    | _ =>
      match plainKey? cs with
      | some (key, following) =>
        (afterColon? following).map fun value => (String.ofList key, trim value)
      | none => none

/-- One argument before its value is read. -/
inductive Piece where
  | positional (text : List Char)
  | option (key : String) (text : List Char)
deriving Repr, DecidableEq

/-- The text of the value. -/
def Piece.text : Piece → List Char
  | .positional text => text
  | .option _ text => text

/-- An argument is an option if it is a pair. -/
def Piece.ofChars (cs : List Char) : Piece :=
  match splitPair? cs with
  | some (key, value) => .option key value
  | none => .positional cs

/-- A call's text without the one pair of parentheses around all of it. -/
def withoutParens (cs : List Char) : List Char :=
  match Scan.unwrap? '(' ')' (trim cs) with
  | some inner => trim inner
  | none => trim cs

/-- The trimmed parts between commas, without the empty ones. -/
def parts (cs : List Char) : List (List Char) :=
  ((Scan.splitTop ',' cs).map trim).filter (!·.isEmpty)

/-- The arguments of a call, before their values are read. -/
def pieces (cs : List Char) : List Piece := (parts (withoutParens cs)).map Piece.ofChars

/-- The options among the pieces. -/
def optionPieces (cs : List Char) : List (String × List Char) :=
  (pieces cs).filterMap fun
    | .option key text => some (key, text)
    | .positional _ => none

theorem length_splitArrow?_snd {quote : Option Char} {depth : Int} {cs left right : List Char}
    (h : splitArrow? quote depth cs = some (left, right)) : right.length ≤ cs.length := by
  fun_induction splitArrow? quote depth cs generalizing left with
  | case1 => simp at h
  | case2 depth q c cs ih =>
    obtain ⟨⟨l, r⟩, hlr, heq⟩ := Option.map_eq_some_iff.1 h
    simp only [Prod.mk.injEq] at heq
    have := ih (heq.2 ▸ hlr)
    simp only [List.length_cons]
    omega
  | case3 =>
    simp only [Option.some.injEq, Prod.mk.injEq] at h
    simp only [← h.2, List.length_cons]
    omega
  | case4 =>
    rename_i ih
    obtain ⟨⟨l, r⟩, hlr, heq⟩ := Option.map_eq_some_iff.1 h
    simp only [Prod.mk.injEq] at heq
    have := ih (heq.2 ▸ hlr)
    simp only [List.length_cons]
    omega

theorem length_afterColon?_le {cs value : List Char} (h : afterColon? cs = some value) :
    value.length ≤ cs.length := by
  unfold afterColon? at h
  split at h
  · simp at h
  · simp only [Option.some.injEq] at h
    simp [← h]
  · simp at h

theorem length_splitFirst?_snd {mark : Char} {cs left right : List Char}
    (h : splitFirst? mark cs = some (left, right)) : right.length ≤ cs.length := by
  induction cs generalizing left with
  | nil => simp [splitFirst?] at h
  | cons c cs ih =>
    rw [splitFirst?] at h
    split at h
    · simp only [Option.some.injEq, Prod.mk.injEq] at h
      simp [h.2]
    · obtain ⟨⟨l, r⟩, hlr, heq⟩ := Option.map_eq_some_iff.1 h
      simp only [Prod.mk.injEq] at heq
      exact Nat.le_succ_of_le (ih (heq.2 ▸ hlr))

theorem length_splitPair?_snd {cs value : List Char} {key : String}
    (h : splitPair? cs = some (key, value)) : value.length ≤ cs.length := by
  unfold splitPair? at h
  split at h
  · rename_i left right harrow
    obtain ⟨k, _, heq⟩ := Option.map_eq_some_iff.1 h
    simp only [Prod.mk.injEq] at heq
    exact heq.2 ▸ Nat.le_trans (length_trim_le _) (length_splitArrow?_snd harrow)
  · split at h
    · rename_i rest
      split at h
      · rename_i k following hsplit
        obtain ⟨v, hv, heq⟩ := Option.map_eq_some_iff.1 h
        simp only [Prod.mk.injEq] at heq
        have h1 := length_afterColon?_le hv
        have h2 := length_splitFirst?_snd hsplit
        have h3 := length_trim_le v
        simp only [← heq.2, List.length_cons]
        omega
      · simp at h
    · split at h
      · rename_i k following hkey
        obtain ⟨v, hv, heq⟩ := Option.map_eq_some_iff.1 h
        simp only [Prod.mk.injEq] at heq
        have h1 := length_afterColon?_le hv
        have h2 : following.length ≤ cs.length := by
          cases cs with
          | nil => simp [plainKey?] at hkey
          | cons c cs =>
            simp only [plainKey?] at hkey
            split at hkey
            · simp only [Option.some.injEq, Prod.mk.injEq] at hkey
              rw [← hkey.2]
              exact Nat.le_succ_of_le (length_dropWhile_le _ _)
            · simp at hkey
        have h3 := length_trim_le v
        simp only [← heq.2]
        omega
      · simp at h

theorem length_text_ofChars_le (cs : List Char) : (Piece.ofChars cs).text.length ≤ cs.length := by
  unfold Piece.ofChars
  split
  · rename_i key value h
    exact length_splitPair?_snd h
  · exact Nat.le_refl _

theorem length_withoutParens_le (cs : List Char) : (withoutParens cs).length ≤ cs.length := by
  unfold withoutParens
  have h1 := length_trim_le cs
  split
  · rename_i inner h
    have h2 := Scan.length_unwrap?_lt h
    have h3 := length_trim_le inner
    omega
  · exact h1

theorem length_mem_parts_le {cs part : List Char} (h : part ∈ parts cs) : part.length ≤ cs.length := by
  simp only [parts, List.mem_filter, List.mem_map] at h
  obtain ⟨⟨p, hp, rfl⟩, _⟩ := h
  exact Nat.le_trans (length_trim_le p) (Scan.length_splitFrom_le _ _ _ p hp)

theorem length_mem_optionPieces_le {cs text : List Char} {key : String}
    (h : (key, text) ∈ optionPieces cs) : text.length ≤ cs.length := by
  simp only [optionPieces, pieces, List.mem_filterMap, List.mem_map] at h
  obtain ⟨piece, ⟨part, hpart, rfl⟩, hopt⟩ := h
  have h1 := length_mem_parts_le hpart
  have h2 := length_withoutParens_le cs
  have h3 := length_text_ofChars_le part
  split at hopt
  · rename_i k t heq
    simp only [Option.some.injEq, Prod.mk.injEq] at hopt
    rw [heq] at h3
    simp only [Piece.text, hopt.2] at h3
    omega
  · simp at hopt

end Arguments

namespace Literal

/-- A text by its shape: a value without values inside, the texts of a list, or the pairs of a hash. -/
inductive Shape where
  | leaf (value : Literal)
  | list (items : List (List Char))
  | pairs (entries : List (String × List Char))

/-- The shape of a trimmed text. What fits no other shape is raw text. -/
def shape (cs : List Char) : Shape :=
  match leaf? cs with
  | some value => .leaf value
  | none =>
    match Scan.unwrap? '[' ']' cs with
    | some inner => .list (Arguments.parts inner)
    | none =>
      match Scan.unwrap? '\x7b' '\x7d' cs with
      | some inner => .pairs (Arguments.optionPieces inner)
      | none => .leaf (.raw (String.ofList cs))

theorem length_lt_of_shape_list {cs : List Char} {items : List (List Char)} (h : shape cs = .list items)
    {item : List Char} (hi : item ∈ items) : item.length < cs.length := by
  unfold shape at h
  split at h
  · simp at h
  · split at h
    · rename_i inner hinner
      simp only [Shape.list.injEq] at h
      subst h
      exact Nat.lt_of_le_of_lt (Arguments.length_mem_parts_le hi) (Scan.length_unwrap?_lt hinner)
    · split at h <;> simp at h

theorem length_lt_of_shape_pairs {cs : List Char} {entries : List (String × List Char)}
    (h : shape cs = .pairs entries) {key : String} {text : List Char} (hi : (key, text) ∈ entries) :
    text.length < cs.length := by
  unfold shape at h
  split at h
  · simp at h
  · split at h
    · simp at h
    · split at h
      · rename_i inner hinner
        simp only [Shape.pairs.injEq] at h
        subst h
        exact Nat.lt_of_le_of_lt (Arguments.length_mem_optionPieces_le hi) (Scan.length_unwrap?_lt hinner)
      · simp at h

/-- Reads one value. -/
def ofChars (cs : List Char) : Literal :=
  match _h : shape (trim cs) with
  | .leaf value => value
  | .list items => .array (items.attach.map fun ⟨item, _⟩ => ofChars item)
  | .pairs entries => .hash (entries.attach.map fun ⟨(key, text), _⟩ => (key, ofChars text))
termination_by cs.length
decreasing_by
  · have h1 := length_lt_of_shape_list _h (by assumption)
    have h2 := length_trim_le cs
    omega
  · have h1 := length_lt_of_shape_pairs _h (by assumption)
    have h2 := length_trim_le cs
    omega

/-- Reads one value. -/
def ofText (text : String) : Literal := ofChars text.toList

end Literal

/-- The arguments of a call: values by position, then options by name. -/
structure Arguments where
  positional : List Literal := []
  options : List (String × Literal) := []
deriving Inhabited

namespace Arguments

/-- Reads the text between the name of a call and its end. -/
def ofChars (cs : List Char) : Arguments where
  positional := (pieces cs).filterMap fun
    | .positional text => some (Literal.ofChars text)
    | .option _ _ => none
  options := (pieces cs).filterMap fun
    | .positional _ => none
    | .option key text => some (key, Literal.ofChars text)

/-- Reads the text between the name of a call and its end. -/
def ofText (text : String) : Arguments := ofChars text.toList

/-- The first option of that name. -/
def option? (args : Arguments) (key : String) : Option Literal := args.options.lookup key

/-- The positional argument at an index, if it is a name. -/
def name? (args : Arguments) (index : Nat) : Option String :=
  args.positional[index]?.bind Literal.name?

/-- The options as a record. -/
def optionsJson (args : Arguments) : List (String × Json) :=
  Json.sortFields (args.options.map fun (key, value) => (key, value.toJson))

end Arguments

end CodeAtlas
