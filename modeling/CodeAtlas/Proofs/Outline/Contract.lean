import CodeAtlas.Proofs.Json.Ordered
import CodeAtlas.Proofs.Outline.Fields
import Mathlib.Tactic.Simproc.ExistsAndEq
/-!
# Outlines read back from their records

An outline written as a record is read back as it was (`ofJson?_toJson`), as long as its lines fit in 32 bits and its
options are what a sorted map holds. The record may be changed on the way, in its own fields and in those of each
declaration and association: `ofJson?_change` says what one change does to the outline that is read, and
`ofJson?_changes` what any run of them does. `ofJson?_of_spelledTwice` says when a record cannot be read at all.
-/

namespace CodeAtlas

open Contract

theorem SymbolKind.ofName?_name (kind : SymbolKind) : SymbolKind.ofName? kind.name = some kind := by
  cases kind <;> decide

theorem Visibility.ofName?_name (v : Visibility) : Visibility.ofName? v.name = some v := by
  cases v <;> decide

theorem AssociationWord.ofName?_name (word : AssociationWord) : AssociationWord.ofName? word.name = some word := by
  cases word <;> decide

/-! ## What single fields hold -/

namespace Contract

variable {α : Type} {read : Json → Option α}

@[simp] theorem required?_some (value : Json) : required? read (some value) = read value := by
  rw [required?]

@[simp] theorem orDefault?_some (default : α) (value : Json) : orDefault? default read (some value) = read value := rfl

@[simp] theorem orDefault?_none (default : α) : orDefault? default read none = some default := rfl

@[simp] theorem optional?_none : optional? read none = some none := rfl

@[simp] theorem optional?_optStr (s : Option String) : optional? Json.str? (some (.optStr s)) = some s := by
  cases s <;> rfl

theorem line?_nat {n : Nat} (h : n < UInt32.size) : line? (.nat n) = some n := by
  rw [Json.nat, line?, if_pos (by simpa using Int.ofNat_lt.2 h), Int.toNat_natCast]

theorem optional?_ofOption_nat {n : Option Nat} (h : ∀ k ∈ n, k < UInt32.size) :
    optional? line? (some (.ofOption .nat n)) = some n := by
  cases n with
  | none => rfl
  | some k =>
      have hline := line?_nat (h k rfl)
      rw [Json.nat] at hline
      simp only [Json.ofOption, Json.nat, optional?, hline, Option.map_some]

theorem word?_str (ofName? : String → Option α) (s : String) : word? ofName? (.str s) = ofName? s := rfl

theorem free?_obj {fields : List (String × Json)} (h : (Json.obj fields).Ordered) :
    free? (.obj fields) = some fields := by
  have hcanonical := h.canonical_eq
  rw [Json.canonical, Json.obj.injEq] at hcanonical
  rw [free?, hcanonical]

theorem list?_map {write : α → Json} {items : List α} (h : ∀ a ∈ items, read (write a) = some a) :
    list? read (.arr (items.map write)) = some items := by
  rw [list?]
  induction items with
  | nil => rfl
  | cons a rest ih =>
      obtain ⟨ha, hrest⟩ := List.forall_mem_cons.1 h
      rw [List.map_cons, List.mapM_cons, ha, ih hrest]
      rfl

theorem list?_strings (items : List String) : list? Json.str? (.strings items) = some items :=
  list?_map fun _ _ => rfl

/-- Another item at one place of a list changes what is read at that place. -/
theorem list?_modify {before after : List Json} {item item' : Json} {effect : α → α} {items : List α}
    (hitem : ∀ a, read item = some a → read item' = some (effect a))
    (h : list? read (.arr (before ++ item :: after)) = some items) :
    list? read (.arr (before ++ item' :: after)) = some (items.modify before.length effect) := by
  rw [list?] at h ⊢
  induction before generalizing items with
  | nil =>
      simp only [List.nil_append, List.mapM_cons, Option.bind_eq_bind, Option.bind_eq_some_iff] at h ⊢
      obtain ⟨a, ha, rest, hrest, hitems⟩ := h
      cases hitems
      exact ⟨effect a, hitem a ha, rest, hrest, rfl⟩
  | cons first before ih =>
      simp only [List.cons_append, List.mapM_cons, Option.bind_eq_bind, Option.bind_eq_some_iff] at h ⊢
      obtain ⟨a, ha, rest, hrest, hitems⟩ := h
      cases hitems
      exact ⟨a, ha, _, ih hrest, rfl⟩

theorem list?_eq_none {items : List Json} {item : Json} (mem : item ∈ items) (h : read item = none) :
    list? read (.arr items) = none := by
  rw [list?]
  induction items with
  | nil => cases mem
  | cons first rest ih =>
      rw [List.mapM_cons]
      rcases List.mem_cons.1 mem with rfl | mem
      · rw [h]
        rfl
      · cases hfirst : read first with
        | none => rfl
        | some a =>
            rw [ih mem]
            rfl

end Contract

/-! ## The three records -/

namespace Declaration

variable {given : List (String × Json)} {d : Declaration}

/-- What may be done to the record of a declaration. -/
def format : Format Declaration where
  fields := fields
  aliases := [("enclosingName", "enclosing_name"), ("startLine", "start_line"), ("endLine", "end_line"),
    ("classMethod", "class_method")]
  defaults := [
    ("enclosingName", fun d => { d with enclosing := none }),
    ("enclosing_name", fun d => { d with enclosing := none }),
    ("visibility", fun d => { d with visibility := .publicAccess }),
    ("signature", fun d => { d with signature := none }),
    ("documentation", fun d => { d with documentation := none }),
    ("superclass", fun d => { d with superclass := none }),
    ("classMethod", fun d => { d with classMethod := false }),
    ("class_method", fun d => { d with classMethod := false })]

theorem ofJson?_eq_some_iff (once : Once fields given) :
    ofJson? (.obj given) = some d ↔
      required? Json.str? ((one "name").slot given) = some d.name ∧
        required? (word? SymbolKind.ofName?) ((one "kind").slot given) = some d.kind ∧
        optional? Json.str? ((two "enclosingName" "enclosing_name").slot given) = some d.enclosing ∧
        required? line? ((two "startLine" "start_line").slot given) = some d.startLine ∧
        required? line? ((two "endLine" "end_line").slot given) = some d.endLine ∧
        orDefault? .publicAccess (word? Visibility.ofName?) ((one "visibility").slot given) = some d.visibility ∧
        optional? Json.str? ((one "signature").slot given) = some d.signature ∧
        optional? Json.str? ((one "documentation").slot given) = some d.documentation ∧
        optional? Json.str? ((one "superclass").slot given) = some d.superclass ∧
        orDefault? false Json.bool? ((two "classMethod" "class_method").slot given) = some d.classMethod := by
  rw [ofJson?, fieldsOf?, slots?_of_once once]
  cases d
  simp [fields, Option.bind_eq_some_iff, -Bool.exists_bool]

theorem bySlots : BySlots fields ofJson? where
  eq_none h := by simp only [ofJson?, fieldsOf?, h]
  congr h := by simp only [ofJson?, fieldsOf?, h]

theorem reads : format.Reads ofJson? where
  aliases := by simp [format, fields]
  slots := bySlots
  reset hdefault h := by
    have once := bySlots.once h
    have hslot := once.slot_erase
    rw [ofJson?_eq_some_iff once] at h
    rw [ofJson?_eq_some_iff once.erase]
    -- the slot of the dropped field is empty, and all others are as they were
    simp only [fields, List.forall_mem_cons] at hslot
    simp only [format, List.mem_cons, Prod.mk.injEq, List.not_mem_nil, or_false] at hdefault
    rcases hdefault with ⟨rfl, rfl⟩ | ⟨rfl, rfl⟩ | ⟨rfl, rfl⟩ | ⟨rfl, rfl⟩ | ⟨rfl, rfl⟩ | ⟨rfl, rfl⟩ | ⟨rfl, rfl⟩ |
      ⟨rfl, rfl⟩
    all_goals simp [hslot, h]

/-- The lines fit in 32 bits. -/
structure Representable (d : Declaration) : Prop where
  startLine : d.startLine < UInt32.size
  endLine : d.endLine < UInt32.size

theorem ofJson?_toJson (h : d.Representable) : ofJson? d.toJson = some d := by
  refine reads.change (.reordered (Json.sortFields_perm (by simp))) ?_
  rw [ofJson?_eq_some_iff (by simp [Once, fields])]
  simp [Field.slot, line?_nat h.startLine, line?_nat h.endLine, word?_str, SymbolKind.ofName?_name,
    Visibility.ofName?_name, Json.str?, Json.bool?]

end Declaration

namespace DeclaredAssociation

variable {given : List (String × Json)} {a : DeclaredAssociation}

/-- What may be done to the record of an association. -/
def format : Format DeclaredAssociation where
  fields := fields
  aliases := []
  defaults := [
    ("target", fun a => { a with target := none }),
    ("options", fun a => { a with options := [] }),
    ("line", fun a => { a with line := none })]

theorem ofJson?_eq_some_iff (once : Once fields given) :
    ofJson? (.obj given) = some a ↔
      required? (word? AssociationWord.ofName?) ((one "kind").slot given) = some a.word ∧
        required? Json.str? ((one "name").slot given) = some a.name ∧
        optional? Json.str? ((one "target").slot given) = some a.target ∧
        orDefault? [] free? ((one "options").slot given) = some a.options ∧
        optional? line? ((one "line").slot given) = some a.line := by
  rw [ofJson?, fieldsOf?, slots?_of_once once]
  cases a
  simp [fields, Option.bind_eq_some_iff]

theorem bySlots : BySlots fields ofJson? where
  eq_none h := by simp only [ofJson?, fieldsOf?, h]
  congr h := by simp only [ofJson?, fieldsOf?, h]

theorem reads : format.Reads ofJson? where
  aliases := by simp [format]
  slots := bySlots
  reset hdefault h := by
    have once := bySlots.once h
    have hslot := once.slot_erase
    rw [ofJson?_eq_some_iff once] at h
    rw [ofJson?_eq_some_iff once.erase]
    simp only [fields, List.forall_mem_cons] at hslot
    simp only [format, List.mem_cons, Prod.mk.injEq, List.not_mem_nil, or_false] at hdefault
    rcases hdefault with ⟨rfl, rfl⟩ | ⟨rfl, rfl⟩ | ⟨rfl, rfl⟩
    all_goals simp [hslot, h]

/-- The options are what a sorted map holds, and the line fits in 32 bits. -/
structure Representable (a : DeclaredAssociation) : Prop where
  options : (Json.obj a.options).Ordered
  line : ∀ n ∈ a.line, n < UInt32.size

theorem ofJson?_toJson (h : a.Representable) : ofJson? a.toJson = some a := by
  refine reads.change (.reordered (Json.sortFields_perm (by simp))) ?_
  rw [ofJson?_eq_some_iff (by simp [Once, fields])]
  simp [Field.slot, optional?_ofOption_nat h.line, free?_obj h.options, word?_str, AssociationWord.ofName?_name,
    Json.str?]

end DeclaredAssociation

namespace Outline

variable {given before after : List (String × Json)} {o : Outline}

/-- What may be done to the record of an outline itself. -/
def format : Format Outline where
  fields := fields
  aliases := [("lineCount", "line_count"), ("requireRelatives", "require_relatives")]
  defaults := [
    ("fingerprint", fun o => { o with fingerprint := none }),
    ("category", fun o => { o with category := none }),
    ("lineCount", fun o => { o with lineCount := none }),
    ("line_count", fun o => { o with lineCount := none }),
    ("symbols", fun o => { o with declarations := [] }),
    ("associations", fun o => { o with associations := [] }),
    ("includes", fun o => { o with includes := [] }),
    ("extends", fun o => { o with extensions := [] }),
    ("requires", fun o => { o with requires := [] }),
    ("requireRelatives", fun o => { o with requireRelatives := [] }),
    ("require_relatives", fun o => { o with requireRelatives := [] })]

theorem ofJson?_eq_some_iff (once : Once fields given) :
    ofJson? (.obj given) = some o ↔
      optional? Json.str? ((one "fingerprint").slot given) = some o.fingerprint ∧
        optional? Json.str? ((one "category").slot given) = some o.category ∧
        optional? line? ((two "lineCount" "line_count").slot given) = some o.lineCount ∧
        orDefault? [] (list? Declaration.ofJson?) ((records "symbols" Declaration.fields).slot given) =
          some o.declarations ∧
        orDefault? [] (list? DeclaredAssociation.ofJson?)
          ((records "associations" DeclaredAssociation.fields).slot given) = some o.associations ∧
        orDefault? [] (list? Json.str?) ((one "includes").slot given) = some o.includes ∧
        orDefault? [] (list? Json.str?) ((one "extends").slot given) = some o.extensions ∧
        orDefault? [] (list? Json.str?) ((one "requires").slot given) = some o.requires ∧
        orDefault? [] (list? Json.str?) ((two "requireRelatives" "require_relatives").slot given) =
          some o.requireRelatives := by
  rw [ofJson?, fieldsOf?, slots?_of_once once]
  cases o
  simp [fields, Option.bind_eq_some_iff]

theorem bySlots : BySlots fields ofJson? where
  eq_none h := by simp only [ofJson?, fieldsOf?, h]
  congr h := by simp only [ofJson?, fieldsOf?, h]

theorem reads : format.Reads ofJson? where
  aliases := by simp [format, fields]
  slots := bySlots
  reset hdefault h := by
    have once := bySlots.once h
    have hslot := once.slot_erase
    rw [ofJson?_eq_some_iff once] at h
    rw [ofJson?_eq_some_iff once.erase]
    simp only [fields, List.forall_mem_cons] at hslot
    simp only [format, List.mem_cons, Prod.mk.injEq, List.not_mem_nil, or_false] at hdefault
    rcases hdefault with ⟨rfl, rfl⟩ | ⟨rfl, rfl⟩ | ⟨rfl, rfl⟩ | ⟨rfl, rfl⟩ | ⟨rfl, rfl⟩ | ⟨rfl, rfl⟩ | ⟨rfl, rfl⟩ |
      ⟨rfl, rfl⟩ | ⟨rfl, rfl⟩ | ⟨rfl, rfl⟩ | ⟨rfl, rfl⟩
    all_goals simp [hslot, h]

/-- The count of lines fits in 32 bits, and everything in the outline can be written. -/
structure Representable (o : Outline) : Prop where
  lineCount : ∀ n ∈ o.lineCount, n < UInt32.size
  declarations : ∀ d ∈ o.declarations, d.Representable
  associations : ∀ a ∈ o.associations, a.Representable

theorem ofJson?_toJson (h : o.Representable) : ofJson? o.toJson = some o := by
  refine reads.change (.reordered (Json.sortFields_perm (by simp))) ?_
  rw [ofJson?_eq_some_iff (by simp [Once, fields])]
  have hdeclarations := list?_map fun d hd => Declaration.ofJson?_toJson (h.declarations d hd)
  have hassociations := list?_map fun a ha => DeclaredAssociation.ofJson?_toJson (h.associations a ha)
  simp [Field.slot, optional?_ofOption_nat h.lineCount, hdeclarations, hassociations, list?_strings]

/-! ## Changes to a whole outline -/

/-- A change to the record of an outline: to its own fields, or to those of a declaration or an association in it. -/
inductive Change : Json → Json → (Outline → Outline) → Prop
  | own {given given' : List (String × Json)} {effect : Outline → Outline} (h : format.Change given given' effect) :
      Change (.obj given) (.obj given') effect
  | declaration (before after : List (String × Json)) (above below : List Json)
      {given given' : List (String × Json)} {effect : Declaration → Declaration}
      (h : Declaration.format.Change given given' effect) :
      Change (.obj (before ++ ("symbols", .arr (above ++ .obj given :: below)) :: after))
        (.obj (before ++ ("symbols", .arr (above ++ .obj given' :: below)) :: after))
        fun o => { o with declarations := o.declarations.modify above.length effect }
  | association (before after : List (String × Json)) (above below : List Json)
      {given given' : List (String × Json)} {effect : DeclaredAssociation → DeclaredAssociation}
      (h : DeclaredAssociation.format.Change given given' effect) :
      Change (.obj (before ++ ("associations", .arr (above ++ .obj given :: below)) :: after))
        (.obj (before ++ ("associations", .arr (above ++ .obj given' :: below)) :: after))
        fun o => { o with associations := o.associations.modify above.length effect }

/-- Any number of changes, one after the other. -/
inductive Changes : Json → Json → (Outline → Outline) → Prop
  | none {value : Json} : Changes value value id
  | more {value value' value'' : Json} {effect last : Outline → Outline} (h : Changes value value' effect)
      (hlast : Change value' value'' last) : Changes value value'' (last ∘ effect)

/-- Some record, of the outline or of a declaration in it, gives one field under both spellings. -/
inductive SpelledTwice : Json → Prop
  | own {given : List (String × Json)} (h : format.SpelledTwice given) : SpelledTwice (.obj given)
  | declaration {given inner : List (String × Json)} {items : List Json} (hitems : ("symbols", .arr items) ∈ given)
      (hinner : .obj inner ∈ items) (h : Declaration.format.SpelledTwice inner) : SpelledTwice (.obj given)

theorem list?_symbols {value : Json} (h : ofJson? (.obj (before ++ ("symbols", value) :: after)) = some o) :
    list? Declaration.ofJson? value = some o.declarations := by
  have once := bySlots.once h
  have hslot : (records "symbols" Declaration.fields).slot _ = some value :=
    once.slot_middle (by simp [fields]) (by simp)
  obtain ⟨-, -, -, hsymbols, -⟩ := (ofJson?_eq_some_iff once).1 h
  simpa [hslot] using hsymbols

theorem list?_associations {value : Json}
    (h : ofJson? (.obj (before ++ ("associations", value) :: after)) = some o) :
    list? DeclaredAssociation.ofJson? value = some o.associations := by
  have once := bySlots.once h
  have hslot : (records "associations" DeclaredAssociation.fields).slot _ = some value :=
    once.slot_middle (by simp [fields]) (by simp)
  obtain ⟨-, -, -, -, hassociations, -⟩ := (ofJson?_eq_some_iff once).1 h
  simpa [hslot] using hassociations

theorem ofJson?_symbols {value value' : Json} {declarations : List Declaration}
    (h : ofJson? (.obj (before ++ ("symbols", value) :: after)) = some o)
    (hlist : list? Declaration.ofJson? value' = some declarations) :
    ofJson? (.obj (before ++ ("symbols", value') :: after)) = some { o with declarations := declarations } := by
  have once := bySlots.once h
  have hslot := once.slot_replace value'
  rw [ofJson?_eq_some_iff once] at h
  rw [ofJson?_eq_some_iff once.replace]
  simp only [fields, List.forall_mem_cons] at hslot
  simp [hslot, h, hlist]

theorem ofJson?_associations {value value' : Json} {associations : List DeclaredAssociation}
    (h : ofJson? (.obj (before ++ ("associations", value) :: after)) = some o)
    (hlist : list? DeclaredAssociation.ofJson? value' = some associations) :
    ofJson? (.obj (before ++ ("associations", value') :: after)) = some { o with associations := associations } := by
  have once := bySlots.once h
  have hslot := once.slot_replace value'
  rw [ofJson?_eq_some_iff once] at h
  rw [ofJson?_eq_some_iff once.replace]
  simp only [fields, List.forall_mem_cons] at hslot
  simp [hslot, h, hlist]

/-- One change has its effect on what is read. -/
theorem ofJson?_change {value value' : Json} {effect : Outline → Outline} (hchange : Change value value' effect)
    (h : ofJson? value = some o) : ofJson? value' = some (effect o) := by
  cases hchange with
  | own hown => exact reads.change hown h
  | declaration before after above below hinner =>
      exact ofJson?_symbols h (list?_modify (fun _ => Declaration.reads.change hinner) (list?_symbols h))
  | association before after above below hinner =>
      exact ofJson?_associations h
        (list?_modify (fun _ => DeclaredAssociation.reads.change hinner) (list?_associations h))

/-- A run of changes has the effect of its steps, one after the other. -/
theorem ofJson?_changes {value value' : Json} {effect : Outline → Outline} (hchanges : Changes value value' effect)
    (h : ofJson? value = some o) : ofJson? value' = some (effect o) := by
  induction hchanges with
  | none => exact h
  | more _ hlast ih =>
      have hread := ofJson?_change hlast ih
      exact hread

theorem ofJson?_of_spelledTwice {value : Json} (h : SpelledTwice value) : ofJson? value = none := by
  cases h with
  | own h => exact reads.eq_none_of_spelledTwice h
  | declaration hitems hinner h =>
      obtain ⟨before, after, rfl⟩ := List.append_of_mem hitems
      by_contra hread
      obtain ⟨o, ho⟩ := Option.ne_none_iff_exists'.1 hread
      have hnone := list?_eq_none hinner (Declaration.reads.eq_none_of_spelledTwice h)
      rw [list?_symbols ho] at hnone
      cases hnone

/-- An outline is read back from its record, whatever is reordered, respelled or joined to it, and with the defaults
in place of what is dropped; a field given under both spellings makes the record unreadable. -/
theorem ofJson?_changed (o : Outline) (ho : o.Representable) :
    ofJson? o.toJson = some o ∧
      (∀ value effect, Changes o.toJson value effect → ofJson? value = some (effect o)) ∧
      ∀ value, SpelledTwice value → ofJson? value = none := by
  have hread := ofJson?_toJson ho
  exact ⟨hread, fun value effect hchanges => ofJson?_changes hchanges hread, fun value => ofJson?_of_spelledTwice⟩

/-- A class of four lines with many books. -/
def shelf : Outline where
  lineCount := some 4
  declarations := [{ name := "Shelf", kind := .classDecl, startLine := 1, endLine := 4, visibility := .privateAccess }]
  associations := [{ word := .hasMany, name := "books", options := [("dependent", .str "destroy")], line := some 2 }]
  requireRelatives := ["book"]

theorem representable_shelf : shelf.Representable where
  lineCount := by simp [shelf, UInt32.size]
  declarations := by
    simp only [shelf, List.forall_mem_singleton]
    exact ⟨by decide, by decide⟩
  associations := by
    simp only [shelf, List.forall_mem_singleton]
    exact ⟨.obj (by simp) (by simpa using .str "destroy"), by simp [UInt32.size]⟩

theorem ofJson?_changed_shelf :
    shelf.Representable ∧
      ofJson? (.obj [("shade", .null), ("fingerprint", .null), ("category", .null), ("line_count", .nat 4),
        ("symbols", .arr [.obj [("name", .str "Shelf"), ("kind", .str "class"), ("enclosingName", .null),
          ("startLine", .nat 1), ("endLine", .nat 4), ("signature", .null), ("documentation", .null),
          ("superclass", .null), ("classMethod", .bool false)]]),
        ("associations", .arr (shelf.associations.map DeclaredAssociation.toJson)), ("includes", .arr []),
        ("extends", .arr []), ("requires", .arr []), ("requireRelatives", .arr [.str "book"])]) =
          some { shelf with declarations := [{ name := "Shelf", kind := .classDecl, startLine := 1, endLine := 4 }] } ∧
      ofJson? (.obj [("lineCount", .nat 4), ("line_count", .nat 4)]) = none := by
  obtain ⟨-, hchanged, htwice⟩ := ofJson?_changed shelf representable_shelf
  have hcount : ("lineCount", "line_count") ∈ format.aliases := by simp [format]
  have hvisibility : ("visibility", fun d => { d with visibility := .publicAccess }) ∈ Declaration.format.defaults := by
    simp [Declaration.format]
  have hshade : ∀ field ∈ format.fields, "shade" ∉ field.names := by simp [format, fields, one, two, records]
  have hordered : Changes shelf.toJson _ _ := .more .none (.own (.reordered (Json.sortFields_perm (by simp)).symm))
  have hrespelled := hordered.more (.own (.respelled [_, _] _ _ hcount))
  have hopened := hrespelled.more (.declaration [_, _, _] _ [] [] (.reordered (Json.sortFields_perm (by simp)).symm))
  have hdropped := hopened.more (.declaration [_, _, _] _ [] [] (.dropped [_, _, _, _, _] _ _ hvisibility))
  have hjoined := hdropped.more (.own (.joined _ "shade" .null hshade))
  refine ⟨representable_shelf, hchanged _ _ hjoined, htwice _ (.own ⟨_, _, hcount, ?_, ?_⟩)⟩
  all_goals simp

end Outline

end CodeAtlas
