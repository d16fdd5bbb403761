import CodeAtlas.Inflection
import CodeAtlas.Proofs.Text.Names
import CodeAtlas.Proofs.Text.Parts
/-!
# Inflection of plain names

Plain names stay plain when they are inflected. The rules look at the last segment of a name only, and a name in humps is
put together from the humps of its segments; so a name to which a segment was added never names the model that it named
before (`camelize_singularize_ne`).
-/

namespace CodeAtlas.Inflection

open CodeAtlas.Text

variable {word : List Char}

/-! ## Singular -/

theorem replacement_singularRules : ∀ rule ∈ singularRules, rule.replacement.all isNameChar = true := by decide

theorem ending_singularRules : ∀ rule ∈ singularRules, '_' ∉ rule.ending := by decide

theorem plain_fit {rule : Rule} (hrule : rule.replacement.all isNameChar = true) (hword : Plain word)
    {result : List Char} (h : rule.fit? word = some result) : Plain result := by
  obtain ⟨stem, hstem, rfl⟩ := Option.map_eq_some_iff.1 h
  rw [before?_eq_some_iff] at hstem
  have hplain : Plain stem := fun c hc => hword c (hstem ▸ List.mem_append_left _ hc)
  exact hplain.append (List.all_eq_true.1 hrule)

theorem plain_singularChars (hword : Plain word) : Plain (singularChars word) := by
  rw [singularChars, applyFirst]
  cases h : singularRules.findSome? (·.fit? word) with
  | none => exact hword
  | some result =>
      obtain ⟨rule, hrule, hfit⟩ := List.exists_of_findSome?_eq_some h
      exact plain_fit (replacement_singularRules rule hrule) hword hfit

theorem findSome?_fit_append (rules : List Rule) (hrules : ∀ rule ∈ rules, '_' ∉ rule.ending) (u v : List Char) :
    rules.findSome? (·.fit? (u ++ '_' :: v)) = (rules.findSome? (·.fit? v)).map fun w => u ++ '_' :: w := by
  induction rules with
  | nil => rfl
  | cons rule rules ih =>
      have hfit : rule.fit? (u ++ '_' :: v) = (rule.fit? v).map fun w => u ++ '_' :: w := by
        rw [Rule.fit?, before?_append_cons (hrules rule List.mem_cons_self), Rule.fit?]
        cases before? rule.ending v <;> simp
      rw [List.findSome?_cons, List.findSome?_cons, hfit, ih fun r hr => hrules r (List.mem_cons_of_mem _ hr)]
      cases rule.fit? v <;> rfl

/-- The singular of a name is that of its last segment. -/
theorem singularChars_append (u v : List Char) : singularChars (u ++ '_' :: v) = u ++ '_' :: singularChars v := by
  rw [singularChars, singularChars, applyFirst, applyFirst, findSome?_fit_append _ ending_singularRules]
  cases singularRules.findSome? (·.fit? v) <;> rfl

/-! ## Humps -/

theorem camelChars_of_plain (hword : Plain word) :
    camelChars word = ((splitOn '_' word).filter (!·.isEmpty)).flatMap capitalizeFirst := by
  rw [camelChars, splitOn_of_not_mem (hword.not_mem (by decide))]
  simp [joinWith]

theorem plain_camelChars (hword : Plain word) : Plain (camelChars word) := by
  rw [camelChars_of_plain hword]
  intro c hc
  obtain ⟨part, hpart, hc⟩ := List.mem_flatMap.1 hc
  have hplain : Plain part := fun d hd => hword d (mem_of_mem_splitOn (List.mem_filter.1 hpart).1 hd)
  cases part with
  | nil => exact absurd hc List.not_mem_nil
  | cons d part =>
      rcases List.mem_append.1 hc with hc | hc
      · exact isNameChar_capitalForm (hplain d List.mem_cons_self) c hc
      · exact hplain c (List.mem_cons_of_mem _ hc)

theorem camelChars_append {u v : List Char} (hu : Plain u) (hv : Plain v) :
    camelChars (u ++ '_' :: v) = camelChars u ++ camelChars v := by
  have huv : Plain (u ++ '_' :: v) := hu.append (hv.cons (by decide))
  rw [camelChars_of_plain huv, camelChars_of_plain hu, camelChars_of_plain hv, splitOn_append, List.filter_append,
    List.flatMap_append]

/-- A name with a role added to it names another model. -/
theorem camelize_singularize_ne {name role : String} (hname : Plain name.toList) (hrole : Plain role.toList) :
    camelize (singularize (name ++ "_as_" ++ role)) ≠ camelize name := by
  have hchars : (name ++ "_as_" ++ role).toList = name.toList ++ '_' :: (['a', 's'] ++ '_' :: role.toList) := by simp
  have has : Plain ['a', 's'] := by decide
  have hsegments : Plain (['a', 's'] ++ '_' :: singularChars role.toList) :=
    has.append ((plain_singularChars hrole).cons (by decide))
  intro h
  have hlist := String.ofList_injective h
  rw [singularize, String.toList_ofList, hchars, singularChars_append, singularChars_append,
    camelChars_append hname hsegments, camelChars_append has (plain_singularChars hrole), List.append_right_eq_self] at hlist
  exact absurd hlist (by simp [show camelChars ['a', 's'] = ['A', 's'] by decide])

/-! ## Names as texts -/

theorem plain_singularize {s : String} (h : Plain s.toList) : Plain (singularize s).toList := by
  rw [singularize, String.toList_ofList]
  exact plain_singularChars h

theorem plain_classify {s : String} (h : Plain s.toList) : Plain (classify s).toList := by
  rw [classify, camelize, String.toList_ofList]
  exact plain_camelChars (plain_singularize h)

/-- The stem of a column is what stands before `_id`, if that is something. -/
theorem idStem?_eq_some_iff {column stem : String} :
    idStem? column = some stem ↔ column = stem ++ "_id" ∧ stem ≠ "" := by
  rw [idStem?, Option.map_eq_some_iff]
  constructor
  · rintro ⟨cs, hcs, rfl⟩
    obtain ⟨hcs, hne⟩ := Option.filter_eq_some_iff.1 hcs
    rw [before?_eq_some_iff] at hcs
    refine ⟨?_, ?_⟩
    · rw [← String.ofList_toList (s := column), hcs, String.ofList_append]
    · intro h
      have hnil := congrArg String.toList h
      rw [String.toList_ofList] at hnil
      simp [hnil] at hne
  · rintro ⟨rfl, hne⟩
    refine ⟨stem.toList, Option.filter_eq_some_iff.2 ⟨before?_eq_some_iff.2 ?_, ?_⟩, String.ofList_toList⟩
    · rw [String.toList_append]
      rfl
    · simpa using hne

theorem plain_idStem {s stem : String} (h : Plain s.toList) (hstem : idStem? s = some stem) : Plain stem.toList := by
  obtain ⟨rfl, -⟩ := idStem?_eq_some_iff.1 hstem
  rw [String.toList_append] at h
  exact fun c hc => h c (List.mem_append_left _ hc)

end CodeAtlas.Inflection
