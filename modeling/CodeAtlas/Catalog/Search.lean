import CodeAtlas.Catalog.Basic
import CodeAtlas.Text.Token
import CodeAtlas.Text.Basic
/-!
# Full-text search

A symbol is found by its name, documentation and signature. The words of a query are phrases, and a symbol matches if any of
them occurs in one of its texts. Matches are ranked by how often the phrases occur in them, how rare the phrases are, and how short
the texts are (the BM25 formula); a smaller rank is better.
-/

namespace CodeAtlas

namespace Search

open CodeAtlas.Text

/-- A word between quotes, with the quotes inside it doubled. -/
def quoteTerm (term : List Char) : List Char :=
  '"' :: term.flatMap (fun c => if c = '"' then ['"', '"'] else [c]) ++ ['"']

/-- The words of a query as quoted phrases of which any may occur; a query without words asks nothing. -/
def expression? (query : String) : Option String :=
  match words query.toList with
  | [] => none
  | terms => some (String.ofList (joinWith " OR ".toList (terms.map quoteTerm)))

/-- A symbol as searched: the tokens of its texts. -/
structure Document where
  symbol : Symbol
  texts : List (List (List Char))

/-- The searched form of a symbol. -/
def Document.ofSymbol (s : Symbol) : Document :=
  { symbol := s
    texts := [tokens s.name, tokens (s.documentation.getD ""), tokens (s.signature.getD "")] }

/-- The number of tokens of a document. -/
def Document.size (d : Document) : Nat := (d.texts.map List.length).foldl (· + ·) 0

/-- How often a phrase occurs in a text. A phrase without tokens never does. -/
def occurrencesIn (phrase : List (List Char)) : List (List Char) → Nat
  | [] => 0
  | t :: ts => (if !phrase.isEmpty && phrase.isPrefixOf (t :: ts) then 1 else 0) + occurrencesIn phrase ts

/-- How often a phrase occurs in a document. -/
def Document.occurrences (d : Document) (phrase : List (List Char)) : Nat :=
  (d.texts.map (occurrencesIn phrase)).foldl (· + ·) 0

/-- The phrases of a query. -/
def phrases (query : String) : List (List (List Char)) :=
  (words query.toList).map fun term => tokens (String.ofList term)

/-- How much an occurrence of a phrase counts: the rarer, the more, and never nothing. -/
def weight (documents matching : Nat) : Float :=
  let w := Float.log ((Float.ofNat documents - Float.ofNat matching + 0.5) / (Float.ofNat matching + 0.5))
  if w ≤ 0.0 then 0.000001 else w

/-- The share of one phrase in the rank of a document. -/
def share (weight : Float) (frequency size : Nat) (average : Float) : Float :=
  weight * ((Float.ofNat frequency * (1.2 + 1.0)) /
    (Float.ofNat frequency + 1.2 * (1.0 - 0.75 + 0.75 * Float.ofNat size / average)))

/-- The rank of a document for weighted phrases. -/
def rank (average : Float) (weighted : List (List (List Char) × Float)) (d : Document) : Float :=
  -1.0 * weighted.foldl (fun sum (phrase, w) => sum + share w (d.occurrences phrase) d.size average) 0.0

end Search

/-- A symbol found by full-text search. -/
structure SymbolHit where
  symbol : Symbol
  category : Category
  rank : Float
deriving Inhabited

namespace Catalog

open Search

/-- The category of the file of a symbol. -/
def categoryOf (c : Catalog) (s : OwnedSymbol) : Category := ((c.fileById? s.file).map (·.category)).getD .other

/-- Every symbol that a query matches, with its rank, best first; equal ranks stay in the order of ids. -/
def matching (c : Catalog) (query : String) : List SymbolHit :=
  let documents := c.symbols.map fun s => (s, Document.ofSymbol s.symbol)
  let total : Nat := (documents.map (·.2.size)).foldl (· + ·) 0
  let average := Float.ofNat total / Float.ofNat documents.length
  let weighted := (phrases query).map fun phrase =>
    (phrase, weight documents.length (documents.countP fun (_, d) => 0 < d.occurrences phrase))
  let found := documents.filter fun (_, d) => weighted.any fun (phrase, _) => 0 < d.occurrences phrase
  (found.map fun (s, d) =>
    { symbol := s.symbol, category := c.categoryOf s, rank := rank average weighted d : SymbolHit }).mergeSort
      fun a b => a.rank ≤ b.rank

/-- The best matches of a query in files of some categories and of some kinds; an empty list allows all. The expression of a query ends at the first null
character, which is inside its quotes; but who wants no matches is not told. -/
def search (c : Catalog) (query : String) (categories : List Category) (kinds : List SymbolKind) (limit : Nat) :
    Outcome (List SymbolHit) :=
  if limit = 0 then .ok []
  else if query.toList.any (·.toNat = 0) then .error (.storage .unterminatedText)
  else
    .ok (((c.matching query).filter fun hit =>
      (categories.isEmpty || categories.contains hit.category) &&
        (kinds.isEmpty || kinds.contains hit.symbol.kind)).take limit)

end Catalog

end CodeAtlas
