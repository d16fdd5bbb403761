import CodeAtlas.Catalog.Search
import CodeAtlas.Store
/-!
# Ranked symbol search

Full-text matches are taken in the order of their rank, a few for each wanted result, and then scored by where the words of the query
occur: in the name of the symbol, in the path of its file, or as a whole in the name. Models and controllers come a little
earlier than the rest. Equal scores stay in the order of their rank.
-/

namespace CodeAtlas

/-- A symbol found by a search, with its score and its full-text rank. -/
structure SearchHit where
  symbol : Symbol
  category : Category
  score : Nat
  rank : Float
deriving Inhabited

/-- The hit as a record. -/
def SearchHit.toJson (hit : SearchHit) : Json :=
  .record [
    ("symbol", hit.symbol.toJson),
    ("category", .str hit.category.name),
    ("score", .nat hit.score),
    ("rank", .real (Number.Binary.ofFloat hit.rank))]

namespace Query

/-- The most results of a search. -/
def maxResults : Nat := 100

/-- How many matches are scored for each wanted result. -/
def candidateFactor : Nat := 5

/-- The number of results to be given: none is refused, and more than the most is brought down to it. -/
def resultLimit (limit : Nat) : Outcome Nat :=
  if limit = 0 then .error (.invalidQuery .zeroLimit) else .ok (min limit maxResults)

/-- Points for the category of a file. -/
def categoryPoints : Category → Nat
  | .model => 3
  | .controller => 2
  | _ => 0

/-- Points for one word of a query, all in small letters. -/
def termPoints (name path term : List Char) : Nat :=
  (if Text.occursIn term name then 10 else 0) + (if Text.occursIn term path then 5 else 0)

/-- The words of a query in small letters. -/
def terms (query : String) : List (List Char) :=
  (Text.words query.toList).map fun term => (Text.toSmall (String.ofList term)).toList

/-- A query without outer blanks, in small letters. -/
def whole (query : String) : List Char :=
  (Text.toSmall (String.ofList (Text.trim query.toList))).toList

/-- The score of a symbol for a query. -/
def score (query : String) (symbol : Symbol) (category : Category) : Nat :=
  let name := (Text.toSmall symbol.name).toList
  let path := (Text.toSmall symbol.path).toList
  let all := whole query
  ((terms query).map (termPoints name path)).foldl (· + ·) 0 +
    (if !all.isEmpty && Text.occursIn all name then 20 else 0) + categoryPoints category

/-- A full-text match with its score. -/
def scored (query : String) (hit : SymbolHit) : SearchHit :=
  { symbol := hit.symbol, category := hit.category, score := score query hit.symbol hit.category, rank := hit.rank }

/-- The best `limit` of ranked matches by score. -/
def best (query : String) (limit : Nat) (ranked : List SymbolHit) : List SearchHit :=
  (((ranked.take (limit * candidateFactor)).map (scored query)).mergeSort fun a b => b.score ≤ a.score).take limit

end Query

/-- The symbols that a query finds in files of some categories, best first; no categories allow all. -/
def Store.search (s : Store) (query : String) (categories : List Category) (limit : Nat) :
    Outcome (List SearchHit) :=
  match Search.expression? query with
  | none => .error (.invalidQuery .emptySearch)
  | some _ =>
    match Query.resultLimit limit with
    | .error e => .error e
    | .ok limit =>
      (s.catalog.search query categories [] (limit * Query.candidateFactor)).map (Query.best query limit)

end CodeAtlas
