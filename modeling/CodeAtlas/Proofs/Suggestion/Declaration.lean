import CodeAtlas.Projection.File
import CodeAtlas.Proofs.Inflection
import CodeAtlas.Proofs.Literal.Arguments
import CodeAtlas.Proofs.Outline.Collecting
import CodeAtlas.Proofs.Suggestion.Pairing
/-!
# Suggested associations in source

A suggested association is written into the source of a model and read again. The reader finds it as it was suggested,
and the class at its far end is the model of the table at the other end of the foreign key, whether a `class_name` was
written or the name alone has to tell (`associations_modelSource`).
-/

namespace CodeAtlas

open CodeAtlas.Text

namespace Association

/-! ## Options as arguments -/

def valueChars (option : String × String) : List Char :=
  if option.1 = "class_name" || option.1 = "foreign_key" then '"' :: option.2.toList ++ ['"'] else ':' :: option.2.toList

/-- The value of an option as it is read. -/
def valueOf (option : String × String) : Literal :=
  if option.1 = "class_name" || option.1 = "foreign_key" then .str option.2 else .sym option.2

theorem toJson_valueOf (option : String × String) : (valueOf option).toJson = .str option.2 := by
  unfold valueOf
  split <;> rfl

def optionChars (option : String × String) : List Char := option.1.toList ++ ':' :: ' ' :: valueChars option

theorem toList_optionText (option : String × String) : (optionText option).toList = ',' :: ' ' :: optionChars option := by
  unfold optionText optionChars valueChars
  dsimp only
  split <;> simp

/-- An option that can be written and read again: a symbol needs a name. -/
structure Written (option : String × String) : Prop where
  key : Plain option.1.toList
  letter : option.1.toList.head?.any (fun c => isLetter c || c == '_') = true
  value : Plain option.2.toList
  nonempty : option.2 = "" → option.1 = "class_name" ∨ option.1 = "foreign_key"

section

variable {option : String × String}

theorem passes_plain {cs : List Char} (h : ∀ c ∈ cs, isNameChar c = true ∨ c = ' ' ∨ c = ':') :
    Scan.Passes ',' {} cs {} := by
  refine Scan.passes_of_forall fun c hc => ?_
  rcases h c hc with hname | rfl | rfl
  · exact ⟨ne_of_isNameChar hname (by decide), forall_nameChar (P := fun c => Scan.isStructural c = false) (by decide) hname⟩
  · decide
  · decide

theorem Written.exists_key (h : Written option) :
    ∃ c cs, option.1.toList = c :: cs ∧ (isLetter c || c == '_') = true ∧ Plain (c :: cs) := by
  obtain ⟨hkey, hletter, -, -⟩ := h
  cases hcs : option.1.toList with
  | nil => simp [hcs] at hletter
  | cons c cs =>
      rw [hcs] at hkey hletter
      exact ⟨c, cs, rfl, hletter, hkey⟩

theorem Written.passes (h : Written option) : Scan.Passes ',' {} (' ' :: optionChars option) {} := by
  have hhead : Scan.Passes ',' {} (' ' :: (option.1.toList ++ [':', ' '])) {} := by
    refine passes_plain fun d hd => ?_
    simp only [List.mem_cons, List.mem_append, List.not_mem_nil, or_false] at hd
    rcases hd with rfl | hd | rfl | rfl
    · simp
    · exact Or.inl (h.key d hd)
    · simp
    · simp
  have hvalue : Scan.Passes ',' {} (valueChars option) {} := by
    unfold valueChars
    split
    · exact Scan.passes_quoted (by decide) fun d hd =>
        ⟨ne_of_isNameChar (h.value d hd) (by decide), ne_of_isNameChar (h.value d hd) (by decide)⟩
    · refine passes_plain fun d hd => ?_
      rcases List.mem_cons.1 hd with rfl | hd
      · simp
      · exact Or.inl (h.value d hd)
  have happend := hhead.append hvalue
  rwa [List.cons_append, List.append_assoc] at happend

theorem Written.value_ne (h : Written option) (hkey : ¬(option.1 = "class_name" || option.1 = "foreign_key") = true) :
    option.2.toList ≠ [] := by
  intro hnil
  have hkeys := h.nonempty (String.toList_eq_nil_iff.1 hnil)
  exact hkey (by simpa using hkeys)

theorem Written.literal (h : Written option) : Literal.ofChars (valueChars option) = valueOf option := by
  unfold valueChars valueOf
  split
  · rw [Literal.ofChars_quoted h.value, String.ofList_toList]
  · next hkey => rw [Literal.ofChars_symbol h.value (h.value_ne hkey), String.ofList_toList]

theorem Written.valueChars_ends (h : Written option) :
    (∀ c ∈ (valueChars option).head?, isBlank c = false) ∧ (∀ c ∈ (valueChars option).getLast?, isBlank c = false) ∧
      '=' ∉ valueChars option := by
  have hequals : '=' ∉ option.2.toList := h.value.not_mem (by decide)
  unfold valueChars
  split
  · refine ⟨by simp; decide, ?_, by simpa using hequals⟩
    rw [List.getLast?_append, List.getLast?_singleton]
    simp
    decide
  · next hkey =>
      refine ⟨by simp; decide, ?_, by simpa using hequals⟩
      rw [List.getLast?_cons_of_ne_nil (h.value_ne hkey)]
      exact fun c hc => isBlank_of_isNameChar (h.value c (List.mem_of_getLast? hc))

theorem Written.piece (h : Written option) :
    Arguments.Piece.ofChars (optionChars option) = .option option.1 (valueChars option) := by
  obtain ⟨c, cs, hkey, hletter, hplain⟩ := h.exists_key
  obtain ⟨hfirst, hlast, hequals⟩ := h.valueChars_ends
  rw [optionChars, hkey, Arguments.ofChars_pair hletter hplain hequals hfirst hlast, ← hkey, String.ofList_toList]

theorem Written.trim_eq (h : Written option) : trim (' ' :: optionChars option) = optionChars option := by
  obtain ⟨c, cs, hkey, -, hplain⟩ := h.exists_key
  obtain ⟨-, hlast, -⟩ := h.valueChars_ends
  have hne : valueChars option ≠ [] := by
    unfold valueChars
    split <;> simp
  refine trim_cons_blank (by decide) ?_ ?_
  · simpa [optionChars, hkey] using isBlank_of_isNameChar (hplain c List.mem_cons_self)
  · have hend : (optionChars option).getLast? = (valueChars option).getLast? := by
      unfold optionChars
      rw [List.getLast?_append_of_ne_nil _ (by simp), List.getLast?_cons_cons, List.getLast?_cons_of_ne_nil hne]
    exact hend ▸ hlast

end

def allOptionChars (options : List (String × String)) : List Char := options.flatMap fun o => ',' :: ' ' :: optionChars o

section

variable {name : List Char} {options : List (String × String)}

theorem parts_written (hname : Plain name) (hne : name ≠ []) (hoptions : ∀ o ∈ options, Written o) :
    Arguments.parts (':' :: name ++ allOptionChars options) = (':' :: name) :: options.map optionChars := by
  have hcolon : trim (':' :: name) = ':' :: name := by
    refine trim_eq_self (by simp; decide) ?_
    rw [List.getLast?_cons_of_ne_nil hne]
    exact fun c hc => isBlank_of_isNameChar (hname c (List.mem_of_getLast? hc))
  have hsymbol : Scan.Passes ',' {} (':' :: name) {} := by
    refine passes_plain fun c hc => ?_
    rcases List.mem_cons.1 hc with rfl | hc
    · simp
    · exact Or.inl (hname c hc)
  have htrims : (options.map fun o => ' ' :: optionChars o).map trim = options.map optionChars := by
    rw [List.map_map]
    exact List.map_congr_left fun o ho => (hoptions o ho).trim_eq
  have hfilter : (options.map optionChars).filter (!·.isEmpty) = options.map optionChars := by
    refine List.filter_eq_self.2 fun cs hcs => ?_
    obtain ⟨o, -, rfl⟩ := List.mem_map.1 hcs
    simp [optionChars]
  rw [Arguments.parts, allOptionChars, Scan.splitTop_flatMap (by decide) hsymbol fun o ho => (hoptions o ho).passes,
    List.map_cons, hcolon, htrims, List.filter_cons_of_pos (by simp), hfilter]

/-- A name and options are read as they were written. -/
theorem ofChars_written (hname : Plain name) (hne : name ≠ []) (hoptions : ∀ o ∈ options, Written o)
    (hlast : ∀ c ∈ (':' :: name ++ allOptionChars options).getLast?, isBlank c = false) :
    Arguments.ofChars (' ' :: (':' :: name ++ allOptionChars options)) =
      { positional := [.sym (String.ofList name)], options := options.map fun o => (o.1, valueOf o) } := by
  have htrim : trim (' ' :: (':' :: name ++ allOptionChars options)) = ':' :: name ++ allOptionChars options :=
    trim_cons_blank (by decide) (by simp; decide) hlast
  have hparens : Arguments.withoutParens (' ' :: (':' :: name ++ allOptionChars options)) =
      ':' :: name ++ allOptionChars options := by
    rw [Arguments.withoutParens, htrim]
    rfl
  have hoptionPieces : (options.map optionChars).map Arguments.Piece.ofChars =
      options.map fun o => .option o.1 (valueChars o) := by
    rw [List.map_map]
    exact List.map_congr_left fun o ho => (hoptions o ho).piece
  have hpieces : Arguments.pieces (' ' :: (':' :: name ++ allOptionChars options)) =
      .positional (':' :: name) :: options.map fun o => .option o.1 (valueChars o) := by
    rw [Arguments.pieces, hparens, parts_written hname hne hoptions, List.map_cons,
      Arguments.ofChars_colon (hname.not_mem (by decide)), hoptionPieces]
  have hvalues : (options.map fun o => (o.1, Literal.ofChars (valueChars o))) = options.map fun o => (o.1, valueOf o) :=
    List.map_congr_left fun o ho => by rw [(hoptions o ho).literal]
  rw [Arguments.ofChars, hpieces]
  simp [List.filterMap_map, Literal.ofChars_symbol hname hne, hvalues]

end

/-! ## The declaration as a line -/

/-- The word that declares an association of a kind. -/
def wordOf : AssociationKind → AssociationWord
  | .belongsTo => .belongsTo
  | .hasMany => .hasMany
  | .hasOne => .hasOne

@[simp] theorem name_wordOf (kind : AssociationKind) : (wordOf kind).name = kind.name := by cases kind <;> rfl

/-- An association whose declaration can be read again. -/
structure Readable (a : Association) : Prop where
  name : Plain a.name.toList
  name_ne : a.name ≠ ""
  className : ∀ c ∈ a.className, Plain c.toList
  dependent : ∀ c ∈ a.dependent, Plain c.toList ∧ c ≠ ""
  foreignKey : ∀ c ∈ a.foreignKey, Plain c.toList
  inverseOf : Plain a.inverseOf.toList
  inverseOf_ne : a.inverseOf ≠ ""

variable {a : Association}

theorem Readable.written (h : a.Readable) : ∀ o ∈ a.options, Written o := by
  have hkeys : ∀ key ∈ ["class_name", "dependent", "foreign_key", "inverse_of"],
      Plain key.toList ∧ key.toList.head?.any (fun c => isLetter c || c == '_') = true := by decide
  have hwritten : ∀ key ∈ ["class_name", "dependent", "foreign_key", "inverse_of"], ∀ value : String, Plain value.toList →
      (value = "" → key = "class_name" ∨ key = "foreign_key") → Written (key, value) :=
    fun key hkey value hvalue hempty => ⟨(hkeys key hkey).1, (hkeys key hkey).2, hvalue, hempty⟩
  intro o ho
  simp only [options, List.mem_append, Option.mem_toList, Option.map_eq_some_iff, List.mem_singleton] at ho
  rcases ho with ((⟨c, hc, rfl⟩ | ⟨c, hc, rfl⟩) | ⟨c, hc, rfl⟩) | rfl
  · exact hwritten _ (by simp) c (h.className c hc) fun _ => Or.inl rfl
  · exact hwritten _ (by simp) c (h.dependent c hc).1 fun hempty => absurd hempty (h.dependent c hc).2
  · exact hwritten _ (by simp) c (h.foreignKey c hc) fun _ => Or.inr rfl
  · exact hwritten _ (by simp) a.inverseOf h.inverseOf fun hempty => absurd hempty h.inverseOf_ne

theorem toList_declaration (a : Association) :
    a.declaration.toList = (wordOf a.kind).name.toList ++ ' ' :: (':' :: a.name.toList ++ allOptionChars a.options) := by
  simp [declaration, allOptionChars, String.toList_join, List.flatMap_map, toList_optionText]

/-- The inverse is the last option. -/
theorem exists_append_inverseOf (a : Association) :
    ∃ cs, ':' :: a.name.toList ++ allOptionChars a.options = cs ++ a.inverseOf.toList := by
  refine ⟨':' :: a.name.toList ++ (allOptionChars (a.options.dropLast) ++ ", inverse_of: :".toList), ?_⟩
  have hoptions : a.options = a.options.dropLast ++ [("inverse_of", a.inverseOf)] := by simp [options]
  rw [hoptions]
  simp [allOptionChars, optionChars, valueChars]

theorem Readable.getLast (h : a.Readable) :
    ∀ c ∈ (':' :: a.name.toList ++ allOptionChars a.options).getLast?, isBlank c = false := by
  obtain ⟨cs, hcs⟩ := exists_append_inverseOf a
  have hne : a.inverseOf.toList ≠ [] := fun hnil => h.inverseOf_ne (String.toList_eq_nil_iff.1 hnil)
  rw [hcs, List.getLast?_append_of_ne_nil _ hne]
  exact fun c hc => isBlank_of_isNameChar (h.inverseOf c (List.mem_of_getLast? hc))

theorem Readable.mem_declaration (h : a.Readable) :
    ∀ c ∈ a.declaration.toList, isNameChar c = true ∨ c ∈ [' ', ':', ',', '"'] := by
  have hword : Plain (wordOf a.kind).name.toList := by cases a.kind <;> decide
  intro c hc
  simp only [toList_declaration, List.mem_append, List.mem_cons] at hc
  rcases hc with hc | rfl | (rfl | hc) | hc
  · exact Or.inl (hword c hc)
  · simp
  · simp
  · exact Or.inl (h.name c hc)
  · obtain ⟨o, ho, hc⟩ := List.mem_flatMap.1 hc
    have hwritten := h.written o ho
    have hvalue : ∀ d ∈ valueChars o, isNameChar d = true ∨ d ∈ [' ', ':', ',', '"'] := by
      intro d hd
      unfold valueChars at hd
      split at hd <;> simp only [List.mem_cons, List.mem_append, List.not_mem_nil, or_false] at hd
      · rcases hd with (rfl | hd) | rfl
        · simp
        · exact Or.inl (hwritten.value d hd)
        · simp
      · rcases hd with rfl | hd
        · simp
        · exact Or.inl (hwritten.value d hd)
    simp only [optionChars, List.mem_cons, List.mem_append] at hc
    rcases hc with rfl | rfl | hc | rfl | rfl | hc
    · simp
    · simp
    · exact Or.inl (hwritten.key c hc)
    · simp
    · simp
    · exact hvalue c hc

theorem Readable.not_mem_declaration (h : a.Readable) {x : Char} (hname : isNameChar x = false)
    (hx : x ∉ [' ', ':', ',', '"']) : x ∉ a.declaration.toList := by
  intro hmem
  rcases h.mem_declaration x hmem with hplain | hother
  · exact absurd hplain (by simp [hname])
  · exact hx hother

theorem Readable.codeText (h : a.Readable) : Outline.CodeText a.declaration.toList := by
  refine ⟨?_, ?_, h.not_mem_declaration (by decide) (by decide)⟩
  · rw [toList_declaration]
    cases a.kind <;> exact ⟨_, _, rfl, by decide, by decide⟩
  · rw [toList_declaration, List.getLast?_append_of_ne_nil _ (by simp), List.getLast?_cons_of_ne_nil (by simp)]
    exact h.getLast

/-- The association as it is read. -/
def declared (a : Association) (line : Nat) : DeclaredAssociation where
  word := wordOf a.kind
  name := a.name
  target := a.className
  options := a.options.map fun (key, value) => (key, .str value)
  line := some line

theorem sortFields_options (a : Association) :
    Json.sortFields (a.options.map fun (key, value) => (key, .str value)) =
      a.options.map fun (key, value) => (key, .str value) := by
  obtain ⟨_, _, _, className, dependent, foreignKey, _, _⟩ := a
  cases className <;> cases dependent <;> cases foreignKey <;> rfl

theorem optionsJson_options (a : Association) (positional : List Literal) :
    Arguments.optionsJson { positional := positional, options := a.options.map fun o => (o.1, valueOf o) } =
      a.options.map fun (key, value) => (key, .str value) := by
  rw [Arguments.optionsJson, List.map_map, ← sortFields_options]
  exact congrArg Json.sortFields (List.map_congr_left fun o _ => by simp [toJson_valueOf])

theorem lookup_className (a : Association) :
    (a.options.map fun o => (o.1, valueOf o)).lookup "class_name" = a.className.map .str := by
  obtain ⟨_, _, _, className, dependent, foreignKey, _, _⟩ := a
  cases className <;> cases dependent <;> cases foreignKey <;> rfl

open Outline in
/-- A line that declares a readable association adds it as it is. -/
theorem Readable.associate (h : a.Readable) {r : Reading} {found : List DeclaredAssociation} (hr : r.Collected found)
    (raw : List Char) (line : Nat) (documentation : Option String) :
    (r.associate (wordOf a.kind) (' ' :: (':' :: a.name.toList ++ allOptionChars a.options)) raw line documentation).Collected
      (found ++ [a.declared line]) := by
  have hne : a.name.toList ≠ [] := fun hnil => h.name_ne (String.toList_eq_nil_iff.1 hnil)
  have hargs := ofChars_written h.name hne h.written h.getLast
  have htarget : ((a.className.map Literal.str).bind Literal.name?).map (fun c => relativePath c.toList) = a.className := by
    cases hclass : a.className with
    | none => rfl
    | some c =>
        have hcolon : ':' ∉ c.toList := (h.className c hclass).not_mem (by decide)
        simp [Literal.name?, relativePath, dropAllStart_of_not_mem hcolon]
  refine ⟨?_, ?_⟩
  · simp only [Reading.associate, hargs, Arguments.name?, Arguments.option?, optionsJson_options, lookup_className, htarget,
      List.getElem?_cons_zero, Option.bind_some, Literal.name?, String.ofList_toList]
    exact congrArg (· ++ [a.declared line]) hr.associations
  · simp only [Reading.associate, hargs, Arguments.name?, List.getElem?_cons_zero, Option.bind_some, Literal.name?]
    exact hr.outside

end Association

namespace Suggestion

open Association Outline

/-- The source of a model that declares one association. -/
def modelSource (model : String) (a : Association) : String :=
  "class " ++ model ++ "\n  " ++ a.declaration ++ "\nend\n"

/-- A constant name, qualified or not: a capital letter, and characters of constant paths. -/
def IsConstantName (name : String) : Prop :=
  ∃ c cs, name.toList = c :: cs ∧ isCapital c = true ∧ ∀ d ∈ cs, isPathChar d = true

theorem IsConstantName.not_mem {name : String} (h : IsConstantName name) {x : Char} (hcapital : isCapital x = false)
    (hpath : isPathChar x = false) : x ∉ name.toList := by
  obtain ⟨c, cs, hname, hc, hcs⟩ := h
  rw [hname]
  intro hmem
  rcases List.mem_cons.1 hmem with rfl | hmem
  · exact absurd hc (by simp [hcapital])
  · exact absurd (hcs x hmem) (by simp [hpath])

theorem lines_modelSource {model : String} (hmodel : IsConstantName model) {a : Association} (ha : a.Readable) :
    lines (modelSource model a).toList =
      ["class".toList ++ ' ' :: model.toList, [' ', ' '] ++ a.declaration.toList, "end".toList] := by
  have hsource : (modelSource model a).toList =
      ("class".toList ++ ' ' :: model.toList) ++ '\n' :: (([' ', ' '] ++ a.declaration.toList) ++ '\n' ::
        ("end".toList ++ '\n' :: [])) := by
    simp [modelSource]
  have hclass : ∀ x, isCapital x = false → isPathChar x = false → x ∉ "class ".toList →
      x ∉ "class".toList ++ ' ' :: model.toList := by
    intro x hcapital hpath hx
    have hnot := hmodel.not_mem hcapital hpath
    simp_all
  have hassociation : ∀ x, isNameChar x = false → x ∉ [' ', ':', ',', '"'] → x ∉ [' ', ' '] ++ a.declaration.toList := by
    intro x hname hx
    have hnot := ha.not_mem_declaration hname hx
    simp_all
  rw [hsource, lines_append (hclass '\n' (by decide) (by decide) (by decide)),
    lines_append (hassociation '\n' (by decide) (by decide)), lines_append (by decide),
    dropReturn_of_getLast fun h => hclass '\r' (by decide) (by decide) (by decide) (List.mem_of_getLast? h),
    dropReturn_of_getLast fun h => hassociation '\r' (by decide) (by decide) (List.mem_of_getLast? h)]
  rfl

/-- The reader finds in the source of a model the association that was written into it. -/
theorem associations_ofSource {model : String} (hmodel : IsConstantName model) {a : Association} (ha : a.Readable) :
    (Outline.ofSource (modelSource model a)).associations = [a.declared 2] := by
  have hstart : Progress.Collected {} [] := ⟨⟨rfl, rfl⟩, rfl, rfl⟩
  have hless : '<' ∉ ' ' :: model.toList := by
    simpa using hmodel.not_mem (by decide : isCapital '<' = false) (by decide)
  have hclass := hstart.step_class hless
  have hdeclared : Progress.Collected
      ((Progress.step {} ("class".toList ++ ' ' :: model.toList)).step ([' ', ' '] ++ a.declaration.toList))
      [a.declared 2] := by
    rw [Progress.step_code hclass.inComment hclass.heredoc (List.all_eq_true.1 (by decide)) ha.codeText]
    refine ⟨hclass.reading.codeLine fun r hr => ?_, hclass.inComment, heredoc?_of_not_mem ?_⟩
    · rw [toList_declaration, hr.content_association, Progress.lines_step]
      exact ha.associate hr _ _ _
    · exact ha.not_mem_declaration (by decide) (by decide)
  rw [Outline.ofSource, lines_modelSource hmodel ha]
  simp only [List.foldl_cons, List.foldl_nil, Progress.finish, Reading.associations_popMany]
  exact hdeclared.step_end.reading.associations

/-! ## Suggested associations -/

open Schema Inflection

/-- A foreign key with plain names. -/
structure PlainKey (k : ForeignKey) : Prop where
  fromTable : Plain k.fromTable.toList
  fromColumn : Plain k.fromColumn.toList
  toTable : Plain k.toTable.toList

variable {table model : String} {indexes : List Index} {used : List String} {k : ForeignKey}

theorem PlainKey.ownerName (h : PlainKey k) : Plain (ownerName k).toList := by
  unfold Suggestion.ownerName
  cases hstem : idStem? k.fromColumn with
  | none => exact plain_singularize h.toTable
  | some stem => exact plain_idStem h.fromColumn hstem

theorem PlainKey.inverseSide (h : PlainKey k) : Plain (inverseSide k indexes).2.toList := by
  unfold Suggestion.inverseSide
  split
  · exact plain_singularize h.fromTable
  · exact h.fromTable

theorem plain_differing {expected actual : String} (h : Plain actual.toList) :
    ∀ c ∈ differing expected actual, Plain c.toList := by
  unfold differing
  split
  · simp
  · rintro c ⟨⟩
    exact h

theorem plain_dependentFor {action : String} : ∀ c ∈ dependentFor action, Plain c.toList ∧ c ≠ "" := by
  unfold dependentFor
  split <;> simp <;> decide

theorem className_owning (model : String) (indexes : List Index) (k : ForeignKey) :
    (owning model indexes k).className = differing (camelize (Suggestion.ownerName k)) (classify k.toTable) := by
  simp only [owning]

theorem className_owned (table model : String) (indexes : List Index) (used : List String) (k : ForeignKey) :
    (owned table model indexes used k).className =
      differing (camelize (singularize (owned table model indexes used k).name)) (classify k.fromTable) := by
  simp only [owned]

theorem PlainKey.readable_owning (h : PlainKey k) (hname : (owning model indexes k).name ≠ "")
    (hinverse : (owning model indexes k).inverseOf ≠ "") : (owning model indexes k).Readable where
  name := h.ownerName
  name_ne := hname
  className := by
    rw [className_owning]
    exact plain_differing (plain_classify h.toTable)
  dependent := by
    intro c hc
    obtain ⟨action, -, hc⟩ := Option.bind_eq_some_iff.1 hc
    exact plain_dependentFor c hc
  foreignKey := by
    simp only [owning]
    exact plain_differing h.fromColumn
  inverseOf := h.inverseSide
  inverseOf_ne := hinverse

theorem PlainKey.plain_name_owned (h : PlainKey k) : Plain (owned table model indexes used k).name.toList := by
  rw [name_owned]
  split
  · have has : Plain "_as_".toList := by decide
    rw [String.toList_append, String.toList_append]
    exact (h.inverseSide.append has).append h.ownerName
  · exact h.inverseSide

theorem PlainKey.readable_owned (h : PlainKey k) (hname : (owned table model indexes used k).name ≠ "")
    (hinverse : (owned table model indexes used k).inverseOf ≠ "") : (owned table model indexes used k).Readable where
  name := h.plain_name_owned
  name_ne := hname
  className := by
    rw [className_owned]
    exact plain_differing (plain_classify h.fromTable)
  dependent := by rintro c ⟨⟩
  foreignKey := by
    simp only [owned]
    exact plain_differing h.fromColumn
  inverseOf := h.ownerName
  inverseOf_ne := hinverse

/-! ## The class at the far end -/

open Projection

/-- The model that the name of an association tells. -/
def namedModel (a : Association) : String := if a.kind = .hasMany then classify a.name else camelize a.name

theorem associationTarget_declared {a : Association} (hclass : ∀ c ∈ a.className, Plain c.toList) (line : Nat) :
    associationTarget (a.declared line) = a.className.getD (namedModel a) := by
  have hlookup : (a.declared line).className? = a.className := by
    obtain ⟨_, _, _, className, dependent, foreignKey, _, _⟩ := a
    cases className <;> cases dependent <;> cases foreignKey <;> rfl
  have hfound : (a.className.filter (!·.isEmpty)).or a.className = a.className := by
    cases a.className with
    | none => rfl
    | some c =>
        rw [Option.filter_some]
        split <;> rfl
  rw [associationTarget, hlookup, show (a.declared line).target = a.className from rfl, hfound]
  cases hname : a.className with
  | some c =>
      have hcolon : ':' ∉ c.toList := (hclass c hname).not_mem (by decide)
      simp [dropAllStart_of_not_mem hcolon]
  | none =>
      obtain ⟨_, kind, _, _, _, _, _, _⟩ := a
      cases kind <;> rfl

/-- A class name is written exactly where the name tells another model. -/
theorem getD_differing {expected actual named : String} (h : expected = actual → named = actual) :
    (differing expected actual).getD named = actual := by
  unfold differing
  split
  · next heq => exact h heq
  · rfl

theorem namedModel_owned (h : PlainKey k)
    (hname : camelize (singularize (owned table model indexes used k).name) = classify k.fromTable) :
    namedModel (owned table model indexes used k) = classify k.fromTable := by
  unfold namedModel
  split
  · exact hname
  · next hkind =>
      -- the plain name is a singular here, and a longer name would tell another model even in the singular
      have hone : inverseSide k indexes = (.hasOne, singularize k.fromTable) := by
        have hside : (inverseSide k indexes).1 ≠ .hasMany := hkind
        unfold inverseSide at hside ⊢
        split
        · rfl
        · next hcovering => exact absurd (by rw [if_neg hcovering]) hside
      rw [name_owned, hone] at hname ⊢
      split at hname
      · exact absurd hname (camelize_singularize_ne (plain_singularize h.fromTable) h.ownerName)
      · next hfree =>
          rw [if_neg hfree]
          rfl

/-- The table at the other end of the key an association was read from. -/
def farTable (a : Association) : String :=
  if a.kind = .belongsTo then a.provenance.foreignKey.toTable else a.provenance.foreignKey.fromTable

theorem farTable_owned : farTable (owned table model indexes used k) = k.fromTable := by
  have hkind : (owned table model indexes used k).kind ≠ .belongsTo := by
    intro h
    have hkinds : (owned table model indexes used k).kind = .hasMany ∨ _ := kind_owned
    rw [h] at hkinds
    exact absurd hkinds (by decide)
  rw [farTable, if_neg hkind]
  rfl

theorem target_owning (h : PlainKey k) (line : Nat) :
    associationTarget ((owning model indexes k).declared line) = classify k.toTable := by
  rw [associationTarget_declared (className_owning model indexes k ▸ plain_differing (plain_classify h.toTable)),
    className_owning]
  exact getD_differing fun heq => heq

theorem target_owned (h : PlainKey k) (line : Nat) :
    associationTarget ((owned table model indexes used k).declared line) = classify k.fromTable := by
  rw [associationTarget_declared (className_owned table model indexes used k ▸ plain_differing (plain_classify h.fromTable)),
    className_owned]
  exact getD_differing (namedModel_owned h)

/-- Whatever is suggested from foreign keys with plain names, and written into the source of a model: the reader finds that
one association with its kind, its name and its options, and the class at its far end is the model of the table at the
other end of the key. -/
theorem associations_modelSource {keys : List ForeignKey} (hkeys : ∀ k ∈ keys, PlainKey k) (table : String)
    (known : List String) (indexes : List Index) {a : Association} (ha : a ∈ associations table keys known indexes)
    (hname : a.name ≠ "") (hinverse : a.inverseOf ≠ "") {model : String} (hmodel : IsConstantName model) :
    ∃ d, (Outline.ofSource (modelSource model a)).associations = [d] ∧ d.word.name = a.kind.name ∧ d.name = a.name ∧
      d.options = a.options.map (fun (key, value) => (key, Json.str value)) ∧
      associationTarget d = classify (farTable a) := by
  have hreadable : a.Readable ∧ associationTarget (a.declared 2) = classify (farTable a) := by
    rcases mem_associations ha with ⟨k, hk, rfl⟩ | ⟨k, hk, taken, rfl⟩
    · exact ⟨(hkeys k hk).readable_owning hname hinverse, target_owning (hkeys k hk) 2⟩
    · refine ⟨(hkeys k hk).readable_owned hname hinverse, ?_⟩
      rw [farTable_owned]
      exact target_owned (hkeys k hk) 2
  exact ⟨a.declared 2, associations_ofSource hmodel hreadable.1, name_wordOf a.kind, rfl, rfl, hreadable.2⟩

/-- No two posts have one author, or one editor. -/
def uniqueIndexes : List Index :=
  [{ name := "by_author", table := "posts", columns := ["author_id"], unique := true },
    { name := "by_editor", table := "posts", columns := ["editor_id"], unique := true }]

theorem associations_modelSource_editor :
    ∃ a ∈ associations "users" postKeys ["users", "posts"] uniqueIndexes,
      ∃ d, (Outline.ofSource (modelSource "User" a)).associations = [d] ∧ d.word.name = "has_one" ∧
        d.name = "post_as_editor" ∧ associationTarget d = "Post" := by
  have hkeys : ∀ k ∈ postKeys, PlainKey k := by
    intro k hk
    simp only [postKeys, List.mem_cons, List.not_mem_nil, or_false] at hk
    rcases hk with rfl | rfl <;> exact ⟨by decide, by decide, by decide⟩
  have hmodel : IsConstantName "User" := ⟨'U', ['s', 'e', 'r'], by decide, by decide, List.all_eq_true.1 (by decide)⟩
  have ha : owned "users" "User" uniqueIndexes ["post"] editorKey ∈
      associations "users" postKeys ["users", "posts"] uniqueIndexes := by decide
  obtain ⟨d, hd, hword, hname, -, htarget⟩ :=
    associations_modelSource hkeys "users" ["users", "posts"] uniqueIndexes ha (by decide) (by decide) hmodel
  exact ⟨_, ha, d, hd, hword, hname, htarget⟩

end Suggestion

end CodeAtlas
