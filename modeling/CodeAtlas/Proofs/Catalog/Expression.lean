import CodeAtlas.Catalog.Search
import CodeAtlas.Proofs.Text.Parts
/-!
# The expression of a query

What a query asks of full-text search is written as an expression, in a language with operators, column filters and
prefixes of its own. `lexemes?` reads this language: phrases stand between quotes, where a doubled quote is one, and
everything else is a bare word or a sign. The expression of a query is read as the words of the query, each a phrase, and
`OR` between them (`lexemes?_expression`); so whatever a word holds, nothing in it is read as part of the language.
-/

namespace CodeAtlas

namespace Text

section

variable {c d : Char}

theorem words_cons_blank (hc : isBlank c = true) (cs : List Char) : words (c :: cs) = words cs := by
  rw [words.eq_def]
  exact if_pos hc

theorem words_singleton (hc : isBlank c = false) : words [c] = [[c]] := by
  rw [words.eq_def]
  exact if_neg (Bool.eq_false_iff.1 hc)

theorem words_cons_cons_blank (hc : isBlank c = false) (hd : isBlank d = true) (cs : List Char) :
    words (c :: d :: cs) = [c] :: words cs := by
  rw [words.eq_def]
  dsimp only
  rw [if_neg (Bool.eq_false_iff.1 hc), if_pos hd, words_cons_blank hd]

theorem words_cons_of_eq (hc : isBlank c = false) (hd : isBlank d = false) {cs word : List Char}
    {more : List (List Char)} (h : words (d :: cs) = word :: more) : words (c :: d :: cs) = (c :: word) :: more := by
  rw [words.eq_def]
  dsimp only
  rw [if_neg (Bool.eq_false_iff.1 hc), if_neg (Bool.eq_false_iff.1 hd), h]

end

/-- The words of a text are what stands between its blanks, empty parts apart. -/
theorem words_eq_filter_splitOnP (cs : List Char) : words cs = (cs.splitOnP isBlank).filter (· ≠ []) := by
  induction cs with
  | nil => rfl
  | cons c rest ih =>
      rw [List.splitOnP_cons_eq_if_modifyHead]
      cases hc : isBlank c with
      | true => simpa [words_cons_blank hc] using ih
      | false =>
          cases rest with
          | nil => exact words_singleton hc
          | cons d rest =>
              rw [List.splitOnP_cons_eq_if_modifyHead] at ih ⊢
              cases hd : isBlank d with
              | true => simpa [words_cons_cons_blank hc hd, hd, words_cons_blank hd] using ih
              | false =>
                  obtain ⟨first, others, hparts⟩ := List.exists_cons_of_ne_nil (List.splitOnP_ne_nil isBlank rest)
                  rw [hd, hparts] at ih
                  rw [hparts]
                  exact words_cons_of_eq hc hd ih

theorem words_eq_nil_iff {cs : List Char} : words cs = [] ↔ ∀ c ∈ cs, isBlank c = true := by
  induction cs with
  | nil => exact iff_of_true rfl fun _ hc => absurd hc List.not_mem_nil
  | cons c rest ih =>
      rw [List.forall_mem_cons]
      cases hc : isBlank c with
      | true => simpa [words_cons_blank hc] using ih
      | false =>
          have hword : words (c :: rest) ≠ [] := by
            rw [words_eq_filter_splitOnP, List.splitOnP_cons_eq_if_modifyHead, hc]
            obtain ⟨first, others, hparts⟩ := List.exists_cons_of_ne_nil (List.splitOnP_ne_nil isBlank rest)
            rw [hparts]
            exact List.cons_ne_nil _ _
          simpa using hword

end Text

namespace Search

open Text

/-- A piece of an expression. A bare word is an operator or the name of a column. -/
inductive Lexeme where
  | phrase (text : List Char)
  | word (text : List Char)
  | sign (c : Char)
deriving Repr, DecidableEq

/-- Where in an expression a reader is: between its pieces, inside a phrase, behind a quote that ends the phrase unless
another one follows, or inside a bare word; with what was read of the piece. -/
inductive Place where
  | between
  | inside (text : List Char)
  | quote (text : List Char)
  | word (text : List Char)
deriving Repr, DecidableEq

def isGap (c : Char) : Bool := c = ' ' || c = '\t' || c = '\n' || c = '\r'

def isSign (c : Char) : Bool := "(){}:,+*-^".toList.contains c

def isBare (c : Char) : Bool := c.isAlphanum || c = '_' || c.toNat = 26 || 128 ≤ c.toNat

namespace Place

/-- Begins a piece. Some characters begin none. -/
def begin? (c : Char) : Option (List Lexeme × Place) :=
  if isGap c then some ([], between)
  else if c = '"' then some ([], inside [])
  else if isSign c then some ([.sign c], between)
  else if isBare c then some ([], word [c])
  else none

/-- The pieces that a character completes, and where the reader is behind it. -/
def step? : Place → Char → Option (List Lexeme × Place)
  | between, c => begin? c
  | inside text, c => some ([], if c = '"' then quote text else inside (text ++ [c]))
  | quote text, c =>
    if c = '"' then some ([], inside (text ++ [c]))
    else (begin? c).map fun (done, place) => (.phrase text :: done, place)
  | word text, c =>
    if isBare c then some ([], word (text ++ [c]))
    else (begin? c).map fun (done, place) => (.word text :: done, place)

/-- The piece that the end of the expression completes. A phrase must have been closed. -/
def finish? : Place → Option (List Lexeme)
  | between => some []
  | inside _ => none
  | quote text => some [.phrase text]
  | word text => some [.word text]

/-- The pieces from a place on. -/
def lexemes? : Place → List Char → Option (List Lexeme)
  | place, [] => place.finish?
  | place, c :: cs => do
    let (done, next) ← place.step? c
    let rest ← next.lexemes? cs
    return done ++ rest

end Place

/-- The pieces of an expression. -/
def lexemes? (expression : String) : Option (List Lexeme) := Place.between.lexemes? expression.toList

/-- The operator between phrases of which any may occur. -/
def orWord : Lexeme := .word "OR".toList

/-! ## Reading a quoted word -/

namespace Place

theorem lexemes?_cons {place next : Place} {c : Char} {done : List Lexeme} (h : place.step? c = some (done, next))
    (cs : List Char) : place.lexemes? (c :: cs) = (next.lexemes? cs).map (done ++ ·) := by
  rw [lexemes?, h]
  cases hrest : next.lexemes? cs <;> simp [hrest]

/-- A character that completes nothing only moves the reader on. -/
theorem lexemes?_cons_nil {place next : Place} {c : Char} (h : place.step? c = some ([], next)) (cs : List Char) :
    place.lexemes? (c :: cs) = next.lexemes? cs := by
  rw [lexemes?_cons h]
  exact Option.map_id'

/-- The text of a word is read back from between its quotes, whatever it holds. -/
theorem lexemes?_inside (done term rest : List Char) :
    (inside done).lexemes? (term.flatMap (fun c => if c = '"' then ['"', '"'] else [c]) ++ '"' :: rest) =
      (quote (done ++ term)).lexemes? rest := by
  induction term generalizing done with
  | nil => rw [List.append_nil]; exact lexemes?_cons_nil rfl rest
  | cons c term ih =>
      rw [List.append_cons done c term, ← ih, List.flatMap_cons, List.append_assoc]
      by_cases hquote : c = '"'
      · -- A doubled quote leads out of the phrase and back into it.
        have hout : (inside done).step? '"' = some ([], quote done) := rfl
        rw [if_pos hquote, List.cons_append, List.cons_append, List.nil_append, hquote, lexemes?_cons_nil hout]
        exact lexemes?_cons_nil rfl _
      · rw [if_neg hquote]
        exact lexemes?_cons_nil (by rw [step?, if_neg hquote]) _

theorem lexemes?_quoteTerm (term rest : List Char) :
    between.lexemes? (quoteTerm term ++ rest) = (quote term).lexemes? rest := by
  have hopen : between.step? '"' = some ([], inside []) := rfl
  rw [quoteTerm, List.append_assoc, List.cons_append, lexemes?_cons_nil hopen]
  exact lexemes?_inside [] term rest

/-- Behind the quote that ends a word the word is complete, and after the operator the next one begins. -/
theorem lexemes?_quote_or (term next rest : List Char) :
    (quote term).lexemes? (" OR ".toList ++ quoteTerm next ++ rest) =
      ((quote next).lexemes? rest).map fun read => .phrase term :: orWord :: read := by
  have hphrase : (quote term).step? ' ' = some ([.phrase term], between) := rfl
  have hword : (word "OR".toList).step? ' ' = some ([orWord], between) := rfl
  calc (quote term).lexemes? (" OR ".toList ++ quoteTerm next ++ rest)
      = (between.lexemes? ("OR ".toList ++ (quoteTerm next ++ rest))).map ([.phrase term] ++ ·) := by
        rw [List.append_assoc]
        exact lexemes?_cons hphrase _
    _ = ((word "OR".toList).lexemes? (' ' :: (quoteTerm next ++ rest))).map ([.phrase term] ++ ·) := by
        have hbegin : between.lexemes? ("OR ".toList ++ (quoteTerm next ++ rest)) =
            (word ['O']).lexemes? ('R' :: ' ' :: (quoteTerm next ++ rest)) := lexemes?_cons_nil rfl _
        rw [hbegin]
        exact congrArg _ (lexemes?_cons_nil rfl _)
    _ = (((quote next).lexemes? rest).map ([orWord] ++ ·)).map ([.phrase term] ++ ·) := by
        rw [lexemes?_cons hword, lexemes?_quoteTerm]
    _ = ((quote next).lexemes? rest).map fun read => .phrase term :: orWord :: read := Option.map_map ..

theorem lexemes?_quote_flatMap (term : List Char) (terms : List (List Char)) :
    (quote term).lexemes? (terms.flatMap fun next => " OR ".toList ++ quoteTerm next) =
      some (((term :: terms).map Lexeme.phrase).intersperse orWord) := by
  induction terms generalizing term with
  | nil => rfl
  | cons next terms ih =>
      rw [List.flatMap_cons, lexemes?_quote_or, ih]
      rfl

end Place

/-- The expression of a query is missing just if the query is blank. Otherwise it is read as the words of the query, which
are what stands between its blanks, each as one phrase and in order, with `OR` between them and nothing else. -/
theorem lexemes?_expression (query : String) :
    (expression? query = none ↔ ∀ c ∈ query.toList, isBlank c = true) ∧
    ∀ e, expression? query = some e →
      lexemes? e =
        some ((((query.toList.splitOnP isBlank).filter (· ≠ [])).map Lexeme.phrase).intersperse orWord) := by
  rw [← words_eq_filter_splitOnP, ← words_eq_nil_iff, expression?]
  cases words query.toList with
  | nil => simp
  | cons term terms =>
      refine ⟨by simp, ?_⟩
      intro e he
      rw [← Option.some.inj he, lexemes?, String.toList_ofList, List.map_cons, joinWith_cons_flatMap,
        Place.lexemes?_quoteTerm, List.flatMap_map]
      exact Place.lexemes?_quote_flatMap term terms

/-- Quotes, an operator, a column filter and a prefix in a query are parts of its phrases. -/
theorem lexemes?_expression_operators :
    expression? "say \"hi OR\tname:x*" = some "\"say\" OR \"\"\"hi\" OR \"OR\" OR \"name:x*\"" ∧
    lexemes? "\"say\" OR \"\"\"hi\" OR \"OR\" OR \"name:x*\"" =
      some [.phrase "say".toList, orWord, .phrase "\"hi".toList, orWord, .phrase "OR".toList, orWord,
        .phrase "name:x*".toList] := by
  have hwritten : expression? "say \"hi OR\tname:x*" = some "\"say\" OR \"\"\"hi\" OR \"OR\" OR \"name:x*\"" := by
    decide +kernel
  refine ⟨hwritten, ?_⟩
  rw [(lexemes?_expression _).2 _ hwritten]
  decide +kernel

/-- Outside quotes all of these are part of the language. -/
example : lexemes? "hi OR name:x*" =
    some [.word "hi".toList, orWord, .word "name".toList, .sign ':', .word "x".toList, .sign '*'] := by decide +kernel

end Search

end CodeAtlas
