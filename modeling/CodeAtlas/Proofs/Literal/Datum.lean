import CodeAtlas.Proofs.Literal.Arguments
import CodeAtlas.Proofs.Number.Numeral
/-!
# Data and their texts

A `Datum` is a value that can be written down as a literal: a string, a name, an integer of 64 bits, a truth value, `nil`,
or an array or hash of such values. `Datum.text` writes it and `Datum.literal` is the value that the text stands for.
Everything about data is proved by induction over what they hold (`Datum.induct`).
-/

namespace CodeAtlas

open CodeAtlas.Text

/-! ## Identifiers -/

/-- Letters, digits and the underscore. No letter or digit is a blank, so the last condition leaves out none. -/
def isIdentifierChar (c : Char) : Bool := (isAlphanumeric c || c == '_') && !isBlank c

/-- A name that starts with a letter or an underscore. -/
structure Identifier where
  name : String
  starts : (name.toList.head?.any fun c => isLetter c || c == '_') = true
  chars : ∀ c ∈ name.toList, isIdentifierChar c = true

section

variable {c : Char}

theorem isBlank_of_isIdentifierChar (h : isIdentifierChar c = true) : isBlank c = false := by
  simp only [isIdentifierChar, Bool.and_eq_true, Bool.not_eq_true'] at h
  exact h.2

theorem isAlphanumeric_of_isIdentifierChar (h : isIdentifierChar c = true) : (isAlphanumeric c || c == '_') = true := by
  rw [isIdentifierChar, Bool.and_eq_true] at h
  exact h.1

theorem ne_of_isIdentifierChar {x : Char} (h : isIdentifierChar c = true) (hx : isIdentifierChar x = false) : c ≠ x := by
  rintro rfl
  exact absurd h (by simp [hx])

theorem isStructural_of_isIdentifierChar (h : isIdentifierChar c = true) : Scan.isStructural c = false := by
  have hne : ∀ x, Scan.isStructural x = true → isIdentifierChar x = false → c ≠ x := fun x _ hx => ne_of_isIdentifierChar h hx
  simp [Scan.isStructural, Scan.isQuote, Scan.isOpening, Scan.isClosing, hne '"' (by decide) (by decide),
    hne '\'' (by decide) (by decide), hne '(' (by decide) (by decide), hne '[' (by decide) (by decide),
    hne '\x7b' (by decide) (by decide), hne ')' (by decide) (by decide), hne ']' (by decide) (by decide),
    hne '\x7d' (by decide) (by decide)]

end

namespace Identifier

theorem not_mem (key : Identifier) {x : Char} (hx : isIdentifierChar x = false) : x ∉ key.name.toList :=
  fun hmem => ne_of_isIdentifierChar (key.chars x hmem) hx rfl

theorem exists_cons (key : Identifier) :
    ∃ c cs, key.name.toList = c :: cs ∧ (isLetter c || c == '_') = true := by
  have hstarts := key.starts
  cases hname : key.name.toList with
  | nil => simp [hname] at hstarts
  | cons c cs => exact ⟨c, cs, rfl, by simpa [hname] using hstarts⟩

end Identifier

/-! ## Data -/

/-- A value that can be written as a literal. -/
inductive Datum where
  | str (text : String)
  | sym (name : Identifier)
  | int (value : Int64)
  | bool (value : Bool)
  | nil
  | array (items : List Datum)
  | hash (pairs : List (Identifier × Datum))

namespace Datum

/-- Induction over data, where an array and a hash may use what holds of everything in them. -/
@[induction_eliminator]
theorem induct {motive : Datum → Prop} (str : ∀ text, motive (.str text)) (sym : ∀ name, motive (.sym name))
    (int : ∀ value, motive (.int value)) (bool : ∀ value, motive (.bool value)) (nil : motive .nil)
    (array : ∀ items, (∀ item ∈ items, motive item) → motive (.array items))
    (hash : ∀ pairs, (∀ pair ∈ pairs, motive pair.2) → motive (.hash pairs)) (d : Datum) : motive d :=
  d.rec (motive_2 := fun items => ∀ item ∈ items, motive item) (motive_3 := fun pairs => ∀ pair ∈ pairs, motive pair.2)
    (motive_4 := fun pair => motive pair.2) str sym int bool nil array hash (List.forall_mem_nil _)
    (fun _ _ hitem hitems => List.forall_mem_cons.2 ⟨hitem, hitems⟩) (List.forall_mem_nil _)
    (fun _ _ hpair hpairs => List.forall_mem_cons.2 ⟨hpair, hpairs⟩) fun _ _ hvalue => hvalue

mutual

/-- The value that is to be read. -/
def literal : Datum → Literal
  | .str text => .str text
  | .sym name => .sym name.name
  | .int value => .int value.toInt
  | .bool value => .bool value
  | .nil => .nil
  | .array items => .array (literals items)
  | .hash pairs => .hash (pairLiterals pairs)

/-- `literal` on every item. -/
def literals : List Datum → List Literal
  | [] => []
  | item :: rest => item.literal :: literals rest

/-- `literal` on every pair. -/
def pairLiterals : List (Identifier × Datum) → List (String × Literal)
  | [] => []
  | (key, value) :: rest => (key.name, value.literal) :: pairLiterals rest

end

/-- Texts with a comma and a blank between neighbours. -/
def separated (texts : List (List Char)) : List Char := joinWith [',', ' '] texts

mutual

/-- A value as it is written. -/
def text : Datum → List Char
  | .str text => Literal.quote text.toList
  | .sym name => ':' :: name.name.toList
  | .int value => (toString value.toInt).toList
  | .bool value => (if value then "true" else "false").toList
  | .nil => "nil".toList
  | .array items => '[' :: separated (texts items) ++ [']']
  | .hash pairs => '\x7b' :: (' ' :: separated (pairTexts pairs) ++ [' ']) ++ ['\x7d']

/-- `text` on every item. -/
def texts : List Datum → List (List Char)
  | [] => []
  | item :: rest => item.text :: texts rest

/-- Every pair as it is written. -/
def pairTexts : List (Identifier × Datum) → List (List Char)
  | [] => []
  | (key, value) :: rest => (key.name.toList ++ ':' :: ' ' :: value.text) :: pairTexts rest

end

mutual

/-- The strings in a value. -/
def strings : Datum → List String
  | .str text => [text]
  | .array items => itemStrings items
  | .hash pairs => pairStrings pairs
  | _ => []

/-- The strings in a list of values. -/
def itemStrings : List Datum → List String
  | [] => []
  | item :: rest => item.strings ++ itemStrings rest

/-- The strings in the values of a list of pairs. -/
def pairStrings : List (Identifier × Datum) → List String
  | [] => []
  | (_, value) :: rest => value.strings ++ pairStrings rest

end

/-- A pair as it is to be read. -/
def pairLiteral (pair : Identifier × Datum) : String × Literal := (pair.1.name, pair.2.literal)

/-- A pair as it is written. -/
def pairText (pair : Identifier × Datum) : List Char := pair.1.name.toList ++ ':' :: ' ' :: pair.2.text

theorem literals_eq_map (items : List Datum) : literals items = items.map literal := by
  induction items with
  | nil => rfl
  | cons item items ih => rw [literals, ih, List.map_cons]

theorem pairLiterals_eq_map (pairs : List (Identifier × Datum)) : pairLiterals pairs = pairs.map pairLiteral := by
  induction pairs with
  | nil => rfl
  | cons pair pairs ih => rw [pairLiterals, ih, List.map_cons, pairLiteral]

theorem texts_eq_map (items : List Datum) : texts items = items.map text := by
  induction items with
  | nil => rfl
  | cons item items ih => rw [texts, ih, List.map_cons]

theorem pairTexts_eq_map (pairs : List (Identifier × Datum)) : pairTexts pairs = pairs.map pairText := by
  induction pairs with
  | nil => rfl
  | cons pair pairs ih => rw [pairTexts, ih, List.map_cons, pairText]

theorem itemStrings_eq_flatMap (items : List Datum) : itemStrings items = items.flatMap strings := by
  induction items with
  | nil => rfl
  | cons item items ih => rw [itemStrings, ih, List.flatMap_cons]

theorem pairStrings_eq_flatMap (pairs : List (Identifier × Datum)) : pairStrings pairs = pairs.flatMap (·.2.strings) := by
  induction pairs with
  | nil => rfl
  | cons pair pairs ih => rw [pairStrings, ih, List.flatMap_cons]

end Datum

end CodeAtlas
