import CodeAtlas.Proofs.Sorting
import CodeAtlas.Query.Ranking
/-!
# Searching with a smaller limit

A search scores some of the ranked matches, five for each wanted hit, and gives the best of them. So a smaller limit has
two effects: fewer hits are given, and fewer matches are scored at all. A match behind those that are scored takes a place
among the first `n` hits unless `n` matches before it have its score (`take_mergeSort_append_iff`). With that, a search
gives the first hits of one with a larger limit just if no match that only the larger one scores has a place among them
(`search_take`), for any ranking of the matches; the ranking in use is one (`searchBy_matching`).
-/

namespace CodeAtlas

/-- A search as with `Catalog.search`, among matches that some ranking has put in order. -/
def Catalog.searchBy (ranking : Catalog → String → List SymbolHit) (c : Catalog) (query : String)
    (categories : List Category) (kinds : List SymbolKind) (limit : Nat) : Outcome (List SymbolHit) :=
  if limit = 0 then .ok []
  else if query.toList.any (·.toNat = 0) then .error (.storage .unterminatedText)
  else
    .ok (((ranking c query).filter fun hit =>
      (categories.isEmpty || categories.contains hit.category) &&
        (kinds.isEmpty || kinds.contains hit.symbol.kind)).take limit)

/-- A search as with `Store.search`, among matches that some ranking has put in order. -/
def Store.searchBy (ranking : Catalog → String → List SymbolHit) (s : Store) (query : String)
    (categories : List Category) (limit : Nat) : Outcome (List SearchHit) :=
  match Search.expression? query with
  | none => .error (.invalidQuery .emptySearch)
  | some _ =>
    match Query.resultLimit limit with
    | .error e => .error e
    | .ok limit =>
      (s.catalog.searchBy ranking query categories [] (limit * Query.candidateFactor)).map (Query.best query limit)

/-- The search is the one among the matches as full-text search ranks them. -/
theorem Store.searchBy_matching : Store.searchBy Catalog.matching = Store.search := rfl

/-- The matches of a query in files of some categories, in the order of a ranking. -/
def Store.ranked (ranking : Catalog → String → List SymbolHit) (s : Store) (query : String)
    (categories : List Category) : List SymbolHit :=
  (ranking s.catalog query).filter fun hit => categories.isEmpty || categories.contains hit.category

/-- A query that is answered: it has a word and no null character. -/
def Search.Answered (query : String) : Prop :=
  Search.expression? query ≠ none ∧ query.toList.any (·.toNat = 0) = false

namespace SearchHit

/-- A higher score comes first. -/
def before (a b : SearchHit) : Bool := b.score ≤ a.score

/-- The hit has at least this score. -/
def reaches (score : Nat) (hit : SearchHit) : Bool := score ≤ hit.score

theorem preorders_before : Preorders before where
  trans a b c hab hbc := by
    simp only [before, decide_eq_true_eq] at *
    omega
  total a b := by
    simp only [before, Bool.or_eq_true, decide_eq_true_eq]
    omega

end SearchHit

namespace Query

open SearchHit

variable {l extra : List SearchHit} {hit : SearchHit} {score n m : Nat}

/-! ## The first of sorted hits -/

theorem pairwise_mergeSort (l : List SearchHit) : (l.mergeSort before).Pairwise fun a b => before a b = true :=
  List.pairwise_mergeSort preorders_before.trans preorders_before.total l

/-- Sorted hits are those that reach a score, followed by the rest. -/
theorem filter_reaches_append (h : l.Pairwise fun a b => before a b = true) (score : Nat) :
    l.filter (reaches score) ++ l.filter (fun a => !reaches score a) = l := by
  induction l with
  | nil => rfl
  | cons a rest ih =>
      rw [List.pairwise_cons] at h
      by_cases ha : reaches score a = true
      · rw [List.filter_cons_of_pos ha, List.filter_cons_of_neg (by simp [ha]), List.cons_append, ih h.2]
      · -- nothing behind a hit that is short of the score reaches it
        have hrest : ∀ b ∈ rest, ¬ reaches score b = true := by
          intro b hb
          have hab := h.1 b hb
          simp only [reaches, before, decide_eq_true_eq] at ha hab ⊢
          omega
        rw [List.filter_cons_of_neg ha, List.filter_cons_of_pos (by simp [ha]), List.filter_eq_nil_iff.2 hrest,
          List.filter_eq_self.2 (by simpa using hrest), List.nil_append]

theorem countP_mergeSort (l : List SearchHit) (p : SearchHit → Bool) : (l.mergeSort before).countP p = l.countP p :=
  (List.mergeSort_perm l before).countP_eq p

/-- A hit that comes last is sorted in behind all that reach its score. -/
theorem mergeSort_concat (l : List SearchHit) (hit : SearchHit) :
    (l ++ [hit]).mergeSort before =
      (l.mergeSort before).filter (reaches hit.score) ++
        hit :: (l.mergeSort before).filter (fun a => !reaches hit.score a) := by
  apply mergeSort_eq_of_filter_eq preorders_before
  · have hsorted := pairwise_mergeSort l
    refine List.pairwise_append.2 ⟨hsorted.filter _, List.pairwise_cons.2 ⟨?_, hsorted.filter _⟩, ?_⟩
    · intro b hb
      have hshort := (List.mem_filter.1 hb).2
      simp only [reaches, before, Bool.not_eq_true', decide_eq_false_iff_not, decide_eq_true_eq] at hshort ⊢
      omega
    · intro a ha b hb
      have hreach := (List.mem_filter.1 ha).2
      simp only [reaches, before, decide_eq_true_eq] at hreach ⊢
      rcases List.mem_cons.1 hb with rfl | hb
      · exact hreach
      · have hshort := (List.mem_filter.1 hb).2
        simp only [reaches, Bool.not_eq_true', decide_eq_false_iff_not] at hshort
        omega
  · intro a
    have hclass : (l.mergeSort before).filter (Alike before a) = l.filter (Alike before a) :=
      filter_mergeSort preorders_before l a
    rw [← filter_reaches_append (pairwise_mergeSort l) hit.score, List.filter_append] at hclass
    rw [List.filter_append, List.filter_append, ← hclass]
    by_cases ha : Alike before a hit = true
    · have hnone : ((l.mergeSort before).filter fun b => !reaches hit.score b).filter (Alike before a) = [] := by
        refine List.filter_eq_nil_iff.2 fun b hb hab => ?_
        have hshort := (List.mem_filter.1 hb).2
        simp only [Alike, before, reaches, Bool.and_eq_true, Bool.not_eq_true', decide_eq_true_eq,
          decide_eq_false_iff_not] at ha hab hshort
        omega
      rw [List.filter_cons_of_pos ha, List.filter_cons_of_pos ha, hnone, List.append_nil, List.filter_nil]
    · rw [List.filter_cons_of_neg ha, List.filter_cons_of_neg ha, List.filter_nil, List.append_nil]

/-- Of the first hits, all reach a score as long as there are such. -/
theorem countP_take_mergeSort (l : List SearchHit) (n score : Nat) :
    ((l.mergeSort before).take n).countP (reaches score) = min n (l.countP (reaches score)) := by
  have hreach : ∀ a ∈ ((l.mergeSort before).filter (reaches score)).take n, reaches score a = true :=
    fun a ha => (List.mem_filter.1 (List.take_subset _ _ ha)).2
  have hshort : ∀ k, (((l.mergeSort before).filter fun a => !reaches score a).take k).countP (reaches score) = 0 := by
    refine fun k => List.countP_eq_zero.2 fun a ha => ?_
    simpa using (List.mem_filter.1 (List.take_subset _ _ ha)).2
  rw [← filter_reaches_append (pairwise_mergeSort l) score, List.take_append, List.countP_append, hshort, Nat.add_zero,
    List.countP_eq_length.2 hreach, List.length_take, ← List.countP_eq_length_filter, countP_mergeSort]

/-- A hit that comes last is not among the first `n` if so many reach its score. -/
theorem take_mergeSort_concat (h : n ≤ l.countP (reaches hit.score)) :
    ((l ++ [hit]).mergeSort before).take n = (l.mergeSort before).take n := by
  have hlength : n ≤ ((l.mergeSort before).filter (reaches hit.score)).length := by
    rw [← List.countP_eq_length_filter, countP_mergeSort]
    exact h
  have hsplit := filter_reaches_append (pairwise_mergeSort l) hit.score
  rw [mergeSort_concat, List.take_append_of_le_length hlength]
  conv_rhs => rw [← hsplit, List.take_append_of_le_length hlength]

/-- Hits that come last change nothing in the first `n` if, for each of them, so many of those before reach its score. -/
theorem take_mergeSort_append (h : ∀ hit ∈ extra, n ≤ l.countP (reaches hit.score)) :
    ((l ++ extra).mergeSort before).take n = (l.mergeSort before).take n := by
  induction extra generalizing l with
  | nil => rw [List.append_nil]
  | cons hit rest ih =>
      have hrest : ∀ later ∈ rest, n ≤ (l ++ [hit]).countP (reaches later.score) := by
        intro later hlater
        have hbefore := h later (List.mem_cons_of_mem _ hlater)
        rw [List.countP_append]
        omega
      rw [List.append_cons, ih hrest, take_mergeSort_concat (h hit List.mem_cons_self)]

/-- Hits that come last change nothing in the first `n` just if, for each of them, so many of those before reach its
score. -/
theorem take_mergeSort_append_iff :
    (l.mergeSort before).take n = ((l ++ extra).mergeSort before).take n ↔
      ∀ hit ∈ extra, n ≤ l.countP (reaches hit.score) := by
  refine ⟨fun heq hit hhit => ?_, fun h => (take_mergeSort_append h).symm⟩
  -- otherwise one more of the first hits reaches the score
  have hself : 0 < extra.countP (reaches hit.score) := List.countP_pos_iff.2 ⟨hit, hhit, by simp [reaches]⟩
  have hcount := congrArg (List.countP (reaches hit.score)) heq
  rw [countP_take_mergeSort, countP_take_mergeSort, List.countP_append] at hcount
  omega

/-! ## The best of ranked matches -/

variable {query : String}

/-- The best of ranked matches with a smaller limit. -/
theorem best_eq_take_iff (hnm : n ≤ m) (ranked : List SymbolHit) :
    best query n ranked = (best query m ranked).take n ↔
      ∀ late ∈ (ranked.take (m * candidateFactor)).drop (n * candidateFactor),
        n ≤ (ranked.take (n * candidateFactor)).countP fun early =>
          Query.score query late.symbol late.category ≤ Query.score query early.symbol early.category := by
  have hfactor : n * candidateFactor ≤ m * candidateFactor := Nat.mul_le_mul_right _ hnm
  have hsplit : ranked.take (m * candidateFactor) =
      ranked.take (n * candidateFactor) ++ (ranked.take (m * candidateFactor)).drop (n * candidateFactor) := by
    conv_lhs => rw [← List.take_append_drop (n * candidateFactor) (ranked.take (m * candidateFactor))]
    rw [List.take_take, Nat.min_eq_left hfactor]
  have hmany : (best query m ranked).take n =
      ((((ranked.take (n * candidateFactor)).map (scored query)) ++
        ((ranked.take (m * candidateFactor)).drop (n * candidateFactor)).map (scored query)).mergeSort before).take n := by
    rw [← List.map_append, ← hsplit]
    exact (List.take_take ..).trans (by rw [Nat.min_eq_left hnm]; rfl)
  rw [hmany]
  refine take_mergeSort_append_iff.trans ?_
  simp only [List.forall_mem_map, List.countP_map]
  rfl

theorem best_take (n : Nat) (ranked : List SymbolHit) :
    best query n (ranked.take (n * candidateFactor)) = best query n ranked := by
  rw [best, best, List.take_take, Nat.min_self]

theorem resultLimit_of_pos (hn : 1 ≤ n) : resultLimit n = .ok (min n maxResults) :=
  if_neg (by omega)

end Query

/-! ## Symbols with the same texts -/

/-- The matches of a query in the order of ids, from which the ranking makes its list. -/
def Catalog.unranked (c : Catalog) (query : String) : List SymbolHit :=
  let documents := c.symbols.map fun s => (s, Search.Document.ofSymbol s.symbol)
  let total : Nat := (documents.map (·.2.size)).foldl (· + ·) 0
  let average := Float.ofNat total / Float.ofNat documents.length
  let weighted := (Search.phrases query).map fun phrase =>
    (phrase, Search.weight documents.length (documents.countP fun (_, d) => 0 < d.occurrences phrase))
  let found := documents.filter fun (_, d) => weighted.any fun (phrase, _) => 0 < d.occurrences phrase
  found.map fun (s, d) => { symbol := s.symbol, category := c.categoryOf s, rank := Search.rank average weighted d }

theorem Catalog.matching_eq (c : Catalog) (query : String) :
    c.matching query = (c.unranked query).mergeSort fun a b => a.rank ≤ b.rank := rfl

/-- The rank of a document is that of its texts. -/
theorem Search.rank_congr {d d' : Search.Document} (h : d.texts = d'.texts) (average : Float)
    (weighted : List (List (List Char) × Float)) : Search.rank average weighted d = Search.rank average weighted d' := by
  simp only [rank, Document.occurrences, Document.size, h]

theorem Catalog.rank_eq_of_texts {c : Catalog} {texts : List (List (List Char))}
    (h : ∀ s ∈ c.symbols, (Search.Document.ofSymbol s.symbol).texts = texts) {query : String} {a b : SymbolHit}
    (ha : a ∈ c.unranked query) (hb : b ∈ c.unranked query) : a.rank = b.rank := by
  obtain ⟨⟨s, d⟩, hfound, rfl⟩ := List.mem_map.1 ha
  obtain ⟨⟨s', d'⟩, hfound', rfl⟩ := List.mem_map.1 hb
  obtain ⟨_, hs, hpair⟩ := List.mem_map.1 (List.mem_filter.1 hfound).1
  obtain ⟨_, hs', hpair'⟩ := List.mem_map.1 (List.mem_filter.1 hfound').1
  obtain ⟨rfl, rfl⟩ := Prod.mk.inj hpair
  obtain ⟨rfl, rfl⟩ := Prod.mk.inj hpair'
  exact Search.rank_congr ((h _ hs).trans (h _ hs').symm) _ _

/-- Symbols with the same texts are ranked in the order of their ids, or from the last to the first. -/
theorem Catalog.matching_of_texts {c : Catalog} {texts : List (List (List Char))}
    (h : ∀ s ∈ c.symbols, (Search.Document.ofSymbol s.symbol).texts = texts) (query : String) :
    c.matching query = c.unranked query ∨ c.matching query = (c.unranked query).reverse := by
  -- the rank they share may be no number, which is not even at most itself
  by_cases hle : ∀ a ∈ c.unranked query, a.rank ≤ a.rank
  · left
    apply List.mergeSort_of_pairwise
    apply List.pairwise_of_forall_mem_list
    intro a ha b hb
    rw [← rank_eq_of_texts h ha hb]
    exact decide_eq_true (hle a ha)
  · right
    obtain ⟨a, ha, hnone⟩ : ∃ a ∈ c.unranked query, ¬ a.rank ≤ a.rank := by simpa using hle
    apply mergeSort_of_forall_not_le
    intro b hb b' hb'
    rw [← rank_eq_of_texts h ha hb, ← rank_eq_of_texts h ha hb']
    exact decide_eq_false hnone

/-! ## Limits -/

namespace Store

open Query

variable {ranking : Catalog → String → List SymbolHit} {query : String} {n m : Nat}

/-- A query that is answered gives the best of its ranked matches. -/
theorem searchBy_eq (s : Store) (h : Search.Answered query) (categories : List Category) (hn : 1 ≤ n) (hmax : n ≤ 100) :
    s.searchBy ranking query categories n = .ok (best query n (s.ranked ranking query categories)) := by
  obtain ⟨hwords, hnull⟩ := h
  obtain ⟨expression, hexpression⟩ := Option.ne_none_iff_exists'.1 hwords
  have hlimit : resultLimit n = .ok n := by rw [resultLimit_of_pos hn, maxResults, Nat.min_eq_left hmax]
  have hsome : ¬ n * candidateFactor = 0 := by
    rw [candidateFactor]
    omega
  simp only [searchBy, hexpression, hlimit, Catalog.searchBy, if_neg hsome, hnull, Bool.false_eq_true, if_false,
    Except.map, List.isEmpty_nil, Bool.true_or, Bool.and_true]
  exact congrArg Except.ok (best_take n _)

/-- Any other query is refused alike with every limit. -/
theorem exists_searchBy_eq_error (ranking : Catalog → String → List SymbolHit) (s : Store)
    (h : ¬ Search.Answered query) (categories : List Category) :
    ∃ e, ∀ n, 1 ≤ n → s.searchBy ranking query categories n = .error e := by
  cases hexpression : Search.expression? query with
  | none => exact ⟨.invalidQuery .emptySearch, fun n _ => by rw [searchBy, hexpression]⟩
  | some expression =>
      have hnull : query.toList.any (·.toNat = 0) = true := by
        by_contra hnone
        exact h ⟨by simp [hexpression], by simpa using hnone⟩
      refine ⟨.storage .unterminatedText, fun n hn => ?_⟩
      have hsome : ¬ min n maxResults * candidateFactor = 0 := by
        rw [maxResults, candidateFactor]
        omega
      simp only [searchBy, hexpression, resultLimit_of_pos hn, Catalog.searchBy, if_neg hsome, hnull, if_true, Except.map]

/-- Take a ranking of matches and two limits, of which the first is no larger. An answered query finds with the first the
beginning of what it finds with the second just if each match that only the second scores is matched or outdone in its
score by as many of the matches before it as are wanted with the first. Any other query is refused alike. -/
theorem search_take (ranking : Catalog → String → List SymbolHit) (s : Store) (query : String)
    (categories : List Category) (hn : 1 ≤ n) (hnm : n ≤ m) (hm : m ≤ 100) :
    (Search.Answered query →
      ∃ few many, s.searchBy ranking query categories n = .ok few ∧ s.searchBy ranking query categories m = .ok many ∧
        (few = many.take n ↔
          ∀ late ∈ ((s.ranked ranking query categories).take (m * 5)).drop (n * 5),
            n ≤ ((s.ranked ranking query categories).take (n * 5)).countP fun early =>
              score query late.symbol late.category ≤ score query early.symbol early.category)) ∧
    (¬ Search.Answered query →
      ∃ e, s.searchBy ranking query categories n = .error e ∧ s.searchBy ranking query categories m = .error e) := by
  constructor
  · intro h
    exact ⟨_, _, searchBy_eq s h categories hn (by omega), searchBy_eq s h categories (by omega) hm,
      best_eq_take_iff hnm _⟩
  · intro h
    obtain ⟨e, he⟩ := exists_searchBy_eq_error ranking s h categories
    exact ⟨e, he n hn, he m (by omega)⟩

/-- A store with eleven classes of one name, the one in the middle in a file of that name. -/
def namesakes : Store where
  catalog :=
    { files := paths.zipIdx.map fun (path, i) =>
        { id := i + 1, path := path, fingerprint := "", category := .other, lineCount := 2, modified := none, indexedAt := 0 }
      symbols := paths.zipIdx.map fun (path, i) =>
        { file := i + 1
          symbol :=
            { id := some (i + 1), path := path, name := "Foo", kind := .classDecl, startLine := 1, endLine := 2
              signature := some "class Foo" } } }
where
  paths : List String := ["a.rb", "b.rb", "c.rb", "d.rb", "e.rb", "foo.rb", "g.rb", "h.rb", "i.rb", "j.rb", "k.rb"]

theorem answered_name : Search.Answered "Foo" := by
  constructor
  · decide +kernel
  · decide +kernel

theorem ranked_namesakes :
    namesakes.ranked Catalog.matching "Foo" [] = namesakes.catalog.unranked "Foo" ∨
      namesakes.ranked Catalog.matching "Foo" [] = (namesakes.catalog.unranked "Foo").reverse := by
  have htexts : ∀ s ∈ namesakes.catalog.symbols,
      (Search.Document.ofSymbol s.symbol).texts = [["foo".toList], [], ["class".toList, "foo".toList]] := by
    decide +kernel
  have hranked : namesakes.ranked Catalog.matching "Foo" [] = namesakes.catalog.matching "Foo" :=
    List.filter_eq_self.2 fun _ _ => rfl
  rw [hranked]
  exact Catalog.matching_of_texts htexts "Foo"

/-- With three wanted hits all the matches are scored, and the hits are the first of those that are had without a limit. -/
theorem search_take_three :
    ∃ few many, namesakes.search "Foo" [] 3 = .ok few ∧ namesakes.search "Foo" [] 100 = .ok many ∧
      few = many.take 3 := by
  obtain ⟨few, many, hfew, hmany, hiff⟩ :=
    (search_take Catalog.matching namesakes "Foo" [] (n := 3) (m := 100) (by decide) (by decide) (by decide)).1
      answered_name
  refine ⟨few, many, hfew, hmany, hiff.2 ?_⟩
  rcases ranked_namesakes with hranked | hranked
  · rw [hranked]
    decide +kernel
  · rw [hranked]
    decide +kernel

/-- The class in the file of its name has the best score, but is the sixth in the ranking: who wants one hit gets another
one. -/
theorem namesakes_search_one :
    namesakes.search "Foo" [] 1 ≠ (namesakes.search "Foo" [] 2).map (·.take 1) := by
  rw [← searchBy_matching, searchBy_eq _ answered_name [] (by decide) (by decide),
    searchBy_eq _ answered_name [] (by decide) (by decide)]
  intro heq
  have hlate := (best_eq_take_iff (by decide) _).1 (Except.ok.inj heq)
  revert hlate
  rcases ranked_namesakes with hranked | hranked
  · rw [hranked]
    decide +kernel
  · rw [hranked]
    decide +kernel

end Store

end CodeAtlas
