import CodeAtlas.Proofs.Inflection
/-!
# There and back

A word that is put into the plural and back into the singular comes back unless it ends in one of the `lostEndings`: the way
there and back is the table `lossyRules` (`singularChars_pluralChars`), and each of its rules makes a word shorter. The
name of a model is a row of humps. It becomes the name of a table by its words in small letters, with underscores between
them, and from these words it is found again; so it is lost on the way to the table and back exactly when the last word is.
-/

namespace CodeAtlas.Inflection

open CodeAtlas.Text

variable {word : List Char}

/-! ## Applying the first rule that fits -/

section

variable {rules : List Rule}

theorem fit?_eq_none_iff {rule : Rule} : rule.fit? word = none ↔ ¬ rule.ending <:+ word := by
  rw [Rule.fit?, Option.map_eq_none_iff, before?_eq_none_iff]

theorem applyFirst_of_no_fit (h : ∀ rule ∈ rules, ¬ rule.ending <:+ word) : applyFirst rules word = word := by
  have hnone : rules.findSome? (·.fit? word) = none :=
    List.findSome?_eq_none_iff.2 fun rule hrule => fit?_eq_none_iff.2 (h rule hrule)
  rw [applyFirst, hnone, Option.getD_none]

/-- A rule with the ending of a word is found for it. -/
theorem exists_rule_of_fit {rule : Rule} (hrule : rule ∈ rules) (h : rule.ending <:+ word) :
    ∃ first ∈ rules, ∃ stem, word = stem ++ first.ending ∧ applyFirst rules word = stem ++ first.replacement := by
  cases hfound : rules.findSome? (·.fit? word) with
  | none => exact absurd h (fit?_eq_none_iff.1 (List.findSome?_eq_none_iff.1 hfound rule hrule))
  | some result =>
      obtain ⟨first, hfirst, hfit⟩ := List.exists_of_findSome?_eq_some hfound
      obtain ⟨stem, hstem, hresult⟩ := Option.map_eq_some_iff.1 hfit
      refine ⟨first, hfirst, stem, before?_eq_some_iff.1 hstem, ?_⟩
      rw [applyFirst, hfound, Option.getD_some, hresult]

end

/-! ## Plural and back -/

/-- The endings that a word does not have any more after its plural, with what stands in their place then. -/
def lossyRules : List Rule :=
  [("ie", "y"), ("se", "s"), ("xe", "x"), ("ze", "z"), ("che", "ch"), ("she", "sh"), ("ve", "f"), ("oe", "o")].map
    fun (ending, replacement) => ⟨ending.toList, replacement.toList⟩

/-- The endings of the words that do not come back from their plural. -/
def lostEndings : List String := ["ie", "se", "xe", "ze", "che", "she", "ve", "oe"]

theorem map_ending_lossyRules : lossyRules.map Rule.ending = lostEndings.map String.toList := rfl

theorem length_replacement_lt : ∀ rule ∈ lossyRules, rule.replacement.length < rule.ending.length := by decide

theorem characters_lossyRules : ∀ rule ∈ lossyRules,
    rule.replacement.all isNameChar = true ∧ '_' ∉ rule.replacement ∧ '_' ∉ rule.ending := by decide

theorem getLast_lossyRules : ∀ rule ∈ lossyRules, rule.ending.getLast? = some 'e' := by decide

/-- The lossy rules leave words alone that do not end in `e`. -/
theorem applyFirst_lossyRules_of_getLast (h : word.getLast? ≠ some 'e') : applyFirst lossyRules word = word := by
  refine applyFirst_of_no_fit ?_
  rintro rule hrule ⟨stem, rfl⟩
  rw [List.getLast?_append, getLast_lossyRules rule hrule, Option.some_or] at h
  exact h rfl

/-- The sounds after which the plural gets an `e`. -/
def sibilants : List (List Char) := [['s'], ['x'], ['z'], ['c', 'h'], ['s', 'h']]

/-- What the plural of a word can be. -/
inductive PluralOf : List Char → List Char → Prop
  | empty : PluralOf [] []
  | consonant (stem : List Char) : PluralOf (stem ++ ['y']) (stem ++ ['i', 'e', 's'])
  | sibilant {ending : List Char} (h : ending ∈ sibilants) (stem : List Char) :
      PluralOf (stem ++ ending) (stem ++ ending ++ ['e', 's'])
  | plain {word : List Char} (h : ¬ ['s'] <:+ word) : PluralOf word (word ++ ['s'])

theorem pluralRules_eq :
    pluralRules = (sibilants.map fun ending => (⟨ending, ending ++ ['e', 's']⟩ : Rule)) ++ [⟨[], ['s']⟩] := rfl

theorem pluralOf_applyFirst (word : List Char) : PluralOf word (applyFirst pluralRules word) := by
  rw [applyFirst, pluralRules_eq, List.findSome?_append, List.findSome?_map]
  cases hfound : sibilants.findSome? ((·.fit? word) ∘ fun ending => (⟨ending, ending ++ ['e', 's']⟩ : Rule)) with
  | some result =>
      obtain ⟨ending, hending, hfit⟩ := List.exists_of_findSome?_eq_some hfound
      obtain ⟨stem, hstem, rfl⟩ := Option.map_eq_some_iff.1 hfit
      rw [before?_eq_some_iff.1 hstem, ← List.append_assoc]
      exact .sibilant hending stem
  | none =>
      have hs := List.findSome?_eq_none_iff.1 hfound ['s'] (by decide)
      have hplain : Rule.fit? ⟨[], ['s']⟩ word = some (word ++ ['s']) := by simp [Rule.fit?, before?, after?]
      simp only [Option.none_or, List.findSome?_cons, hplain]
      exact .plain (fit?_eq_none_iff.1 hs)

theorem pluralOf_pluralChars (word : List Char) : PluralOf word (pluralChars word) := by
  unfold pluralChars
  split
  · next h =>
      rw [List.isEmpty_iff.1 h]
      exact .empty
  · split
    · next stem hstem =>
        obtain ⟨hstem, -⟩ := Option.filter_eq_some_iff.1 hstem
        rw [before?_eq_some_iff.1 hstem]
        exact .consonant stem
    · exact pluralOf_applyFirst word

/-- The rules for the singular take off an `s`, and but for words in `ss` they do the rest by the lossy rules. -/
theorem singularRules_eq :
    singularRules = (lossyRules ++ ([⟨['s'], ['s', 's']⟩, ⟨[], []⟩] : List Rule)).map fun rule =>
      ⟨rule.ending ++ ['s'], rule.replacement⟩ := rfl

theorem fit?_concat (rule : Rule) (word : List Char) :
    Rule.fit? ⟨rule.ending ++ ['s'], rule.replacement⟩ (word ++ ['s']) = rule.fit? word := by
  rw [Rule.fit?, before?_concat, Rule.fit?]

theorem singularChars_concat (h : ¬ ['s'] <:+ word) : singularChars (word ++ ['s']) = applyFirst lossyRules word := by
  have hdouble : Rule.fit? ⟨['s'], ['s', 's']⟩ word = none := fit?_eq_none_iff.2 h
  have hsingle : Rule.fit? ⟨[], []⟩ word = some word := by simp [Rule.fit?, before?, after?]
  rw [singularChars, applyFirst, singularRules_eq, List.findSome?_map]
  simp only [Function.comp_def, fit?_concat]
  rw [List.findSome?_append, applyFirst]
  cases lossyRules.findSome? (·.fit? word) with
  | some result => rfl
  | none => simp only [Option.none_or, List.findSome?_cons, hdouble, hsingle, Option.getD]

theorem PluralOf.singularChars_eq {plural : List Char} (h : PluralOf word plural) :
    singularChars plural = applyFirst lossyRules word := by
  cases h with
  | empty => rfl
  | consonant stem =>
      rw [applyFirst_lossyRules_of_getLast (by simp)]
      simp [singularChars, applyFirst, singularRules, Rule.fit?, before?, after?]
  | sibilant hending stem =>
      simp only [sibilants, List.mem_cons, List.not_mem_nil, or_false] at hending
      rcases hending with rfl | rfl | rfl | rfl | rfl
      all_goals
        rw [applyFirst_lossyRules_of_getLast (by simp)]
        simp [singularChars, applyFirst, singularRules, Rule.fit?, before?, after?]
  | plain h => exact singularChars_concat h

/-- The way to the plural and back is the table of lossy rules. -/
theorem singularChars_pluralChars (word : List Char) :
    singularChars (pluralChars word) = applyFirst lossyRules word :=
  (pluralOf_pluralChars word).singularChars_eq

/-- A word with a lost ending comes back with less in its place. -/
theorem exists_shortened {ending : String} (hending : ending ∈ lostEndings) (h : ending.toList <:+ word) :
    ∃ rule ∈ lossyRules, ∃ stem, word = stem ++ rule.ending ∧
      singularChars (pluralChars word) = stem ++ rule.replacement := by
  have hmem : ending.toList ∈ lossyRules.map Rule.ending := map_ending_lossyRules ▸ List.mem_map_of_mem hending
  obtain ⟨rule, hrule, heq⟩ := List.mem_map.1 hmem
  rw [singularChars_pluralChars]
  exact exists_rule_of_fit hrule (heq ▸ h)

theorem singularChars_pluralChars_of_kept (h : ∀ ending ∈ lostEndings, ¬ ending.toList <:+ word) :
    singularChars (pluralChars word) = word := by
  rw [singularChars_pluralChars]
  refine applyFirst_of_no_fit fun rule hrule => ?_
  have hmem : rule.ending ∈ lostEndings.map String.toList := map_ending_lossyRules ▸ List.mem_map_of_mem hrule
  obtain ⟨ending, hending, heq⟩ := List.mem_map.1 hmem
  exact heq ▸ h ending hending

/-- A word comes back from its plural if and only if it has none of the lost endings. -/
theorem singularize_pluralize_iff (w : String) :
    singularize (pluralize w) = w ↔ ∀ ending ∈ lostEndings, ¬ ending.toList <:+ w.toList := by
  rw [singularize, pluralize, String.toList_ofList]
  constructor
  · intro hback ending hending hsuffix
    obtain ⟨rule, hrule, stem, hword, hsingular⟩ := exists_shortened hending hsuffix
    have hlength : (stem ++ rule.replacement).length = (stem ++ rule.ending).length := by
      rw [← hsingular, ← hword, ← String.toList_ofList (l := singularChars (pluralChars w.toList)), hback]
    rw [List.length_append, List.length_append, Nat.add_left_cancel_iff] at hlength
    exact absurd hlength (Nat.ne_of_lt (length_replacement_lt rule hrule))
  · intro hkept
    rw [singularChars_pluralChars_of_kept hkept, String.ofList_toList]

example : singularize (pluralize "category") = "category" ∧ singularize (pluralize "movie") = "movy" := by decide

/-! ## Names of models -/

/-- A capital letter, a small letter, and any small letters and digits. -/
structure Hump where
  capital : Char
  small : Char
  rest : List Char
  isUpper_capital : capital.isUpper = true
  isLower_small : small.isLower = true
  rest_lower : ∀ c ∈ rest, (c.isLower || c.isDigit) = true

namespace Hump

/-- What follows the capital letter. -/
def tail (h : Hump) : List Char := h.small :: h.rest

/-- The hump as it stands in the name of a model. -/
def chars (h : Hump) : List Char := h.capital :: h.tail

/-- The hump as it stands in the name of a table. -/
def segment (h : Hump) : List Char := h.capital.toLower :: h.tail

theorem tail_lower (h : Hump) : ∀ c ∈ h.tail, (c.isLower || c.isDigit) = true :=
  List.forall_mem_cons.2 ⟨by rw [h.isLower_small, Bool.true_or], h.rest_lower⟩

end Hump

/-- The name of a model that consists of humps. -/
def modelName (humps : List Hump) : String := String.ofList (humps.flatMap Hump.chars)

section

variable {c : Char}

theorem isNameChar_of_lower (h : (c.isLower || c.isDigit) = true) : isNameChar c = true := by
  rcases Bool.or_eq_true_iff.1 h with hlower | hdigit
  · exact isNameChar_of_isAlpha (Bool.or_eq_true_iff.2 (Or.inr hlower))
  · rw [isNameChar, Char.isAlphanum, hdigit, Bool.or_true, Bool.true_or]

theorem isNameChar_of_isUpper (h : c.isUpper = true) : isNameChar c = true :=
  isNameChar_of_isAlpha (Bool.or_eq_true_iff.2 (Or.inl h))

/-- Small letters and digits stay as they are, and a capital letter after them starts a hump. -/
theorem forms_of_lower (h : (c.isLower || c.isDigit) = true) :
    isCapital c = false ∧ c ≠ '-' ∧ c ≠ '_' ∧ (isSmall c || c.isDigit) = true :=
  forall_nameChar (P := fun c => (c.isLower || c.isDigit) = true →
    isCapital c = false ∧ c ≠ '-' ∧ c ≠ '_' ∧ (isSmall c || c.isDigit) = true) (by decide) (isNameChar_of_lower h) h

/-- A capital letter is found again from its small form. -/
theorem forms_of_isUpper (h : c.isUpper = true) :
    isCapital c = true ∧ smallForm c = [c.toLower] ∧ isNameChar c.toLower = true ∧ c.toLower ≠ '_' ∧
      capitalForm c.toLower = [c] :=
  forall_nameChar (P := fun c => c.isUpper = true →
    isCapital c = true ∧ smallForm c = [c.toLower] ∧ isNameChar c.toLower = true ∧ c.toLower ≠ '_' ∧
      capitalForm c.toLower = [c]) (by decide) (isNameChar_of_isUpper h) h

end

namespace Hump

theorem plain_segment (h : Hump) : Plain h.segment :=
  Plain.cons (forms_of_isUpper h.isUpper_capital).2.2.1 fun c hc => isNameChar_of_lower (h.tail_lower c hc)

theorem underscore_not_mem_segment (h : Hump) : '_' ∉ h.segment := by
  rw [segment, List.mem_cons, not_or]
  exact ⟨(forms_of_isUpper h.isUpper_capital).2.2.2.1.symm,
    fun hmem => (forms_of_lower (h.tail_lower '_' hmem)).2.2.1 rfl⟩

theorem capitalizeFirst_segment (h : Hump) : capitalizeFirst h.segment = h.chars := by
  rw [segment, capitalizeFirst, (forms_of_isUpper h.isUpper_capital).2.2.2.2]
  rfl

theorem plain_chars (h : Hump) : Plain h.chars :=
  Plain.cons (isNameChar_of_isUpper h.isUpper_capital) fun c hc => isNameChar_of_lower (h.tail_lower c hc)

end Hump

theorem plain_flatMap_chars (humps : List Hump) : Plain (humps.flatMap Hump.chars) := by
  intro c hc
  obtain ⟨h, -, hc⟩ := List.mem_flatMap.1 hc
  exact h.plain_chars c hc

theorem scopeToSlash_of_not_mem (h : ':' ∉ word) : scopeToSlash word = word := by
  induction word with
  | nil => rfl
  | cons c cs ih =>
      rw [List.mem_cons, not_or] at h
      rw [scopeToSlash, ih h.2]
      rintro ds rfl
      exact absurd rfl h.1

theorem snakeFrom_append {cs : List Char} (h : ∀ c ∈ cs, (c.isLower || c.isDigit) = true) (prev : Option Char)
    (rest : List Char) : snakeFrom prev (cs ++ rest) = cs ++ snakeFrom (cs.getLast?.or prev) rest := by
  induction cs generalizing prev with
  | nil => simp
  | cons c cs ih =>
      obtain ⟨hc, hcs⟩ := List.forall_mem_cons.1 h
      obtain ⟨hcapital, hdash, -, -⟩ := forms_of_lower hc
      have hlast : (c :: cs).getLast?.or prev = cs.getLast?.or (some c) := by
        rw [List.getLast?_cons]
        cases cs.getLast? <;> rfl
      rw [List.cons_append, snakeFrom, hcapital, ih hcs, hlast]
      simp [hdash]

/-- A hump is read up to its last character, which is no capital letter. -/
theorem exists_snakeFrom_hump (h : Hump) (prev : Option Char) (rest : List Char) :
    ∃ last : Char, (last.isLower || last.isDigit) = true ∧
      snakeFrom prev (h.chars ++ rest) =
        (if startsHump prev (some h.small) then '_' :: h.segment else h.segment) ++ snakeFrom (some last) rest := by
  obtain ⟨hcapital, hsmall, -⟩ := forms_of_isUpper h.isUpper_capital
  have hne : h.tail ≠ [] := List.cons_ne_nil _ _
  refine ⟨h.tail.getLast hne, h.tail_lower _ (List.getLast_mem hne), ?_⟩
  rw [Hump.chars, List.cons_append, snakeFrom, snakeFrom_append h.tail_lower, List.getLast?_eq_some_getLast hne,
    Option.some_or, hcapital, hsmall, Hump.segment]
  have hhead : (h.tail ++ rest).head? = some h.small := rfl
  rw [hhead, if_pos rfl]
  split <;> rfl

/-- After a small letter or a digit every hump starts with an underscore. -/
theorem snakeFrom_humps {prev : Char} (hprev : (prev.isLower || prev.isDigit) = true) (humps : List Hump) :
    snakeFrom (some prev) (humps.flatMap Hump.chars) = humps.flatMap fun h => '_' :: h.segment := by
  induction humps generalizing prev with
  | nil => rfl
  | cons h humps ih =>
      have hstarts : startsHump (some prev) (some h.small) = true := by
        simp [startsHump, (forms_of_lower hprev).2.2.2]
      obtain ⟨last, hlast, heq⟩ := exists_snakeFrom_hump h (some prev) (humps.flatMap Hump.chars)
      rw [List.flatMap_cons, heq, if_pos hstarts, ih hlast, List.flatMap_cons]

theorem snakeChars_humps (humps : List Hump) :
    snakeChars (humps.flatMap Hump.chars) = joinWith ['_'] (humps.map Hump.segment) := by
  rw [snakeChars, scopeToSlash_of_not_mem ((plain_flatMap_chars humps).not_mem (by decide))]
  cases humps with
  | nil => rfl
  | cons h humps =>
      obtain ⟨last, hlast, heq⟩ := exists_snakeFrom_hump h none (humps.flatMap Hump.chars)
      rw [List.flatMap_cons, heq, snakeFrom_humps hlast, List.map_cons, joinWith_cons, List.flatMap_map]
      rfl

theorem plain_joinWith {parts : List (List Char)} (h : ∀ part ∈ parts, Plain part) : Plain (joinWith ['_'] parts) := by
  cases parts with
  | nil => exact fun c hc => absurd hc List.not_mem_nil
  | cons part parts =>
      obtain ⟨hpart, hparts⟩ := List.forall_mem_cons.1 h
      rw [joinWith_cons]
      refine hpart.append fun c hc => ?_
      obtain ⟨next, hnext, hc⟩ := List.mem_flatMap.1 hc
      exact (hparts next hnext).cons (by decide) c hc

theorem plain_snakeChars_humps (humps : List Hump) : Plain (snakeChars (humps.flatMap Hump.chars)) := by
  rw [snakeChars_humps]
  refine plain_joinWith fun part hpart => ?_
  obtain ⟨h, -, rfl⟩ := List.mem_map.1 hpart
  exact h.plain_segment

/-- The humps of a name are found again from its segments. -/
theorem camelChars_snakeChars (humps : List Hump) :
    camelChars (snakeChars (humps.flatMap Hump.chars)) = humps.flatMap Hump.chars := by
  rw [camelChars_of_plain (plain_snakeChars_humps humps), snakeChars_humps]
  cases humps with
  | nil => rfl
  | cons h humps =>
      have hsegments : ∀ part ∈ (h :: humps).map Hump.segment, '_' ∉ part := by
        intro part hpart
        obtain ⟨x, -, rfl⟩ := List.mem_map.1 hpart
        exact x.underscore_not_mem_segment
      have hfilter : ((h :: humps).map Hump.segment).filter (!·.isEmpty) = (h :: humps).map Hump.segment := by
        refine List.filter_eq_self.2 fun part hpart => ?_
        obtain ⟨x, -, rfl⟩ := List.mem_map.1 hpart
        rfl
      rw [List.map_cons, splitOn_joinWith hsegments, ← List.map_cons, hfilter, List.flatMap_map]
      simp only [Hump.capitalizeFirst_segment]

theorem length_capitalizeFirst {part : List Char} (h : Plain part) : (capitalizeFirst part).length = part.length := by
  cases part with
  | nil => rfl
  | cons c part =>
      have hc := isAscii_of_isNameChar (h c List.mem_cons_self)
      rw [capitalizeFirst, capitalForm, if_pos hc]
      rfl

/-- A name in humps has all characters of the plain name but the underscores. -/
theorem length_camelChars (h : Plain word) : (camelChars word).length = (word.filter (· ≠ '_')).length := by
  have hparts : ∀ part ∈ splitOn '_' word, Plain part := fun part hpart c hc => h c (mem_of_mem_splitOn hpart hc)
  rw [camelChars_of_plain h, ← flatten_splitOn]
  generalize splitOn '_' word = parts at hparts
  induction parts with
  | nil => rfl
  | cons part parts ih =>
      obtain ⟨hpart, hrest⟩ := List.forall_mem_cons.1 hparts
      rw [List.flatten_cons, List.length_append, ← ih hrest, ← length_capitalizeFirst hpart]
      cases part with
      | nil => simp [capitalizeFirst]
      | cons c part => simp

theorem classify_tableize (humps : List Hump) :
    (classify (tableize (modelName humps))).toList =
      camelChars (singularChars (pluralChars (snakeChars (humps.flatMap Hump.chars)))) := by
  have hslash : ∀ c ∈ snakeChars (humps.flatMap Hump.chars), (if c = '/' then '_' else c) = c := by
    intro c hc
    exact if_neg (ne_of_isNameChar (plain_snakeChars_humps humps c hc) (by decide))
  simp only [classify, camelize, singularize, tableize, modelName, String.toList_ofList]
  rw [List.map_congr_left hslash, List.map_id']

/-- A word with a lost ending names another model after its plural. -/
theorem length_camelChars_lt (hword : Plain word) {ending : String} (hending : ending ∈ lostEndings)
    (h : ending.toList <:+ word) : (camelChars (singularChars (pluralChars word))).length < (camelChars word).length := by
  obtain ⟨rule, hrule, stem, rfl, hsingular⟩ := exists_shortened hending h
  obtain ⟨hplain, hunder, hunder'⟩ := characters_lossyRules rule hrule
  have hstem : Plain stem := fun c hc => hword c (List.mem_append_left _ hc)
  have hresult : Plain (stem ++ rule.replacement) := hstem.append (List.all_eq_true.1 hplain)
  have hall : ∀ {cs : List Char}, '_' ∉ cs → cs.filter (· ≠ '_') = cs := by
    intro cs hcs
    refine List.filter_eq_self.2 fun c hc => decide_eq_true ?_
    rintro rfl
    exact hcs hc
  rw [hsingular, length_camelChars hresult, length_camelChars hword, List.filter_append, List.filter_append, hall hunder,
    hall hunder', List.length_append, List.length_append]
  exact Nat.add_lt_add_left (length_replacement_lt rule hrule) _

/-- The name of a model comes back from the name of its table if and only if its last segment has none of the lost endings,
and it always comes back from its segments. -/
theorem classify_tableize_iff (humps : List Hump) :
    (classify (tableize (modelName humps)) = modelName humps ↔
      ∀ ending ∈ lostEndings, ¬ ending.toList <:+ (underscore (modelName humps)).toList) ∧
    camelize (underscore (modelName humps)) = modelName humps := by
  have hsnake : (underscore (modelName humps)).toList = snakeChars (humps.flatMap Hump.chars) := by
    rw [underscore, modelName, String.toList_ofList, String.toList_ofList]
  have hcamel : camelize (underscore (modelName humps)) = modelName humps := by
    rw [camelize, hsnake, camelChars_snakeChars, modelName]
  refine ⟨⟨?_, ?_⟩, hcamel⟩
  · intro hback ending hending hsuffix
    rw [hsnake] at hsuffix
    have hlt := length_camelChars_lt (plain_snakeChars_humps humps) hending hsuffix
    rw [← classify_tableize, hback, camelChars_snakeChars, modelName, String.toList_ofList] at hlt
    exact absurd hlt (Nat.lt_irrefl _)
  · intro hkept
    rw [hsnake] at hkept
    refine String.toList_injective ?_
    rw [classify_tableize, singularChars_pluralChars_of_kept hkept, camelChars_snakeChars, modelName,
      String.toList_ofList]

end CodeAtlas.Inflection
