import CodeAtlas.Proofs.Outline.Ranges
import CodeAtlas.Proofs.Text.Parts
/-!
# Names of classes and modules

The line of a class or module declares it under a constant path (`declaredPath?`), absolute or not. An absolute path is
the full name; any other is put behind the name of what encloses the declaration. What encloses it does not depend on
the path: it is the innermost class or module that is open in its line, if any is (`enclosing_eq_none_iff`). So an
absolute path inside a class or module gives a name that need not lie below the enclosing one
(`below_enclosing_iff`).
-/

namespace CodeAtlas.Outline

open CodeAtlas.Text

/-- The constant path under which a line declares a class or module. -/
def declaredPath? (raw : List Char) : Option (List Char) :=
  ((Heading.class? raw).or (Heading.module? raw)).bind fun
    | .container _ path _ => some path
    | _ => none

/-- The full name that belongs to a path under an enclosing name. -/
def fullName (enclosing : Option String) (path : List Char) : String :=
  match after? [':', ':'] path with
  | some rest => String.ofList rest
  | none =>
    match enclosing with
    | some outer => outer ++ "::" ++ String.ofList path
    | none => String.ofList path

/-- The name lies below a class or module. -/
def Below (outer name : String) : Prop := (outer ++ "::").toList <+: name.toList

/-- A class or module has the full name that belongs to the path in its line. -/
def Named (d : Declaration) : Prop :=
  ∃ raw path, d.signature = some (String.ofList raw) ∧ declaredPath? raw = some path ∧ d.name = fullName d.enclosing path

theorem below_append (outer : String) (path : List Char) : Below outer (outer ++ "::" ++ String.ofList path) :=
  ⟨path, by simp⟩

theorem declaredPath?_of_ofLine? {raw code : List Char} {kind : SymbolKind} {path : List Char} {superclass : Option (List Char)}
    (h : Heading.ofLine? raw code = some (.container kind path superclass)) : declaredPath? raw = some path := by
  have hmethod : ∀ {raw}, Heading.method? raw ≠ some (.container kind path superclass) := by
    intro raw hmethod
    unfold Heading.method? at hmethod
    split at hmethod
    · obtain ⟨onSelf, name, tail, heq, -⟩ := bareMethod?_eq_some hmethod
      exact absurd heq (by simp)
    · obtain ⟨onSelf, name, tail, heq, -⟩ := bareMethod?_eq_some hmethod
      exact absurd heq (by simp)
  unfold Heading.ofLine? at h
  split at h
  · exact absurd h (by simp)
  · rw [← Option.or_assoc, Option.or_eq_some_iff] at h
    rcases h with h | ⟨-, h⟩
    · rw [declaredPath?, h]
      rfl
    · exact absurd h hmethod

namespace Reading

variable {r : Reading} {line : Nat}

/-! ## What the name is -/

theorem qualify_eq (r : Reading) (declared : List Char) :
    (r.qualify declared).1 = fullName r.container? declared ∧ (r.qualify declared).2.or r.container? = r.container? := by
  have hor : r.container?.or r.container? = r.container? := by cases r.container? <;> rfl
  unfold qualify fullName
  cases after? [':', ':'] declared with
  | some rest => exact ⟨rfl, rfl⟩
  | none =>
      cases h : r.container? with
      | none => exact ⟨rfl, rfl⟩
      | some outer => exact ⟨rfl, rfl⟩

/-- Every class and module read so far has its full name. -/
def AllNamed (r : Reading) : Prop := ∀ d ∈ r.outline.declarations, d.kind.isContainer = true → Named d

theorem AllNamed.declare (h : r.AllNamed) {d : Declaration} {documentation : Option String}
    (hd : d.kind.isContainer = true → Named { d with enclosing := d.enclosing.or r.container? }) :
    (r.declare d documentation).AllNamed := by
  intro e he hkind
  rcases List.mem_append.1 he with he | he
  · exact h e he hkind
  · rw [List.mem_singleton] at he
    subst he
    exact hd hkind

theorem AllNamed.heading (h : r.AllNamed) {raw code : List Char} {heading : Heading} (documentation : Option String)
    (hline : Heading.ofLine? raw code = some heading) : (r.heading raw line documentation heading).AllNamed := by
  rcases heading_cases hline with rfl | ⟨kind, declared, superclass, rfl, -⟩ | ⟨stated, onSelf, name, tail, signature, rfl, -⟩
  · exact h
  · refine h.declare fun _ => ⟨raw, declared, rfl, declaredPath?_of_ofLine? hline, ?_⟩
    obtain ⟨hname, henclosing⟩ := r.qualify_eq declared
    change (r.qualify declared).1 = fullName ((r.qualify declared).2.or r.container?) declared
    rw [hname, henclosing]
  · rw [Reading.heading]
    split <;> exact h.declare fun hkind => absurd (show SymbolKind.method.isContainer = true from hkind) (by decide)

theorem AllNamed.pop (h : r.AllNamed) : (r.pop line).AllNamed := by
  intro d hd hkind
  have hkept : (r.pop line).outline.declarations.map (fun d => (d.kind, d.signature, d.name, d.enclosing)) =
      r.outline.declarations.map fun d => (d.kind, d.signature, d.name, d.enclosing) :=
    map_declarations_pop (fun _ _ => rfl) r line
  obtain ⟨e, he, heq⟩ := List.mem_map.1 (hkept ▸ List.mem_map_of_mem hd)
  simp only [Prod.mk.injEq] at heq
  have hnamed := h e he (heq.1 ▸ hkind)
  rwa [Named, heq.2.1, heq.2.2.1, heq.2.2.2] at hnamed

theorem upheld_allNamed : Upheld 0 fun _ r => r.AllNamed where
  later _ h := h
  congr h hds _ := by rwa [AllNamed, hds]
  pop _ h := h.pop
  pushBlock _ h := h
  heading documentation _ hline h := h.heading documentation hline
  declareLine kind name raw documentation v _ hkind h := by
    refine h.declare fun hcontainer => ?_
    cases kind <;> simp_all [SymbolKind.isContainer, SymbolKind.isProjected]

/-! ## What encloses it -/

/-- Every open class or module has a frame with a name, and those before one that nothing encloses ended in earlier
lines. -/
structure Outermost (r : Reading) : Prop where
  frames : ∀ frame ∈ r.stack, ∀ i d, frame.declaration = some i → r.outline.declarations[i]? = some d →
    d.kind.isContainer = true → ∃ name, frame.kind = .container name
  ended : ∀ i j e d, i < j → r.outline.declarations[i]? = some e → r.outline.declarations[j]? = some d →
    e.kind.isContainer = true → d.kind.isContainer = true → d.enclosing = none →
      i ∉ places r.stack ∧ e.endLine < d.startLine

theorem Outermost.congr (h : r.Outermost) {r' : Reading} (hds : r'.outline.declarations = r.outline.declarations)
    (hstack : r'.stack.map (fun f => (f.kind, f.declaration)) = r.stack.map fun f => (f.kind, f.declaration)) :
    r'.Outermost := by
  refine ⟨?_, ?_⟩
  · intro frame hframe i d hplace hd hkind
    have hmem : (frame.kind, frame.declaration) ∈ r.stack.map fun f => (f.kind, f.declaration) := by
      rw [← hstack]
      exact List.mem_map_of_mem hframe
    obtain ⟨old, hold, heq⟩ := List.mem_map.1 hmem
    rw [Prod.mk.injEq] at heq
    rw [hds] at hd
    rw [← heq.1]
    exact h.frames old hold i d (heq.2.trans hplace) hd hkind
  · rw [hds, places_congr hstack]
    exact h.ended

/-- Where no class or module is open, the stack holds the place of none. -/
theorem Outermost.not_mem_places (h : r.Outermost) (hnone : r.container? = none) {i : Nat} {e : Declaration}
    (he : r.outline.declarations[i]? = some e) (hkind : e.kind.isContainer = true) : i ∉ places r.stack := by
  intro hmem
  obtain ⟨frame, hframe, hplace⟩ := List.mem_filterMap.1 hmem
  obtain ⟨name, hname⟩ := h.frames frame hframe i e hplace he hkind
  have hfound := List.findSome?_eq_none_iff.1 hnone frame hframe
  rw [hname] at hfound
  exact absurd hfound (by simp)

theorem Outermost.pop (h : r.Outermost) (line : Nat) : (r.pop line).Outermost := by
  unfold Reading.pop
  split
  · exact h
  next frame rest hstack =>
    have hrest : ∀ f ∈ rest, f ∈ r.stack := fun f hf => hstack ▸ List.mem_cons_of_mem _ hf
    have hplaces : ∀ i, i ∈ places rest → i ∈ places r.stack := by
      intro i hi
      obtain ⟨f, hf, hplace⟩ := List.mem_filterMap.1 hi
      exact List.mem_filterMap.2 ⟨f, hrest f hf, hplace⟩
    split
    next place hplace =>
      have hopen : place ∈ places r.stack := List.mem_filterMap.2 ⟨frame, hstack ▸ List.mem_cons_self, hplace⟩
      refine ⟨?_, ?_⟩
      · intro f hf i d' hi hd' hkind
        obtain ⟨d, hd, rfl⟩ := Ranged.getElem?_modify_cases hd'
        rw [(Ranged.ended_frame place line i d).2.1] at hkind
        exact h.frames f (hrest f hf) i d hi hd hkind
      · intro i j e' d' hij he' hd' hkind hkind' hnone
        obtain ⟨e, he, rfl⟩ := Ranged.getElem?_modify_cases he'
        obtain ⟨d, hd, rfl⟩ := Ranged.getElem?_modify_cases hd'
        obtain ⟨hstart, hdkind, -, henclosing⟩ := Ranged.ended_frame place line j d
        rw [(Ranged.ended_frame place line i e).2.1] at hkind
        rw [hdkind] at hkind'
        rw [henclosing] at hnone
        obtain ⟨hclosed, hlt⟩ := h.ended i j e d hij he hd hkind hkind' hnone
        have hne : place ≠ i := by
          rintro rfl
          exact hclosed hopen
        rw [hstart, Ranged.endLine_ended, if_neg hne]
        exact ⟨fun hi => hclosed (hplaces i hi), hlt⟩
    next hplace =>
      refine ⟨fun f hf => h.frames f (hrest f hf), ?_⟩
      intro i j e d hij he hd hkind hkind' hnone
      exact (h.ended i j e d hij he hd hkind hkind' hnone).imp_left fun hclosed hi => hclosed (hplaces i hi)

/-- A declaration is added after all that was read in earlier lines, and a frame may be opened for it. -/
theorem Outermost.declare (h : r.Outermost) (hnested : r.Nested line) {d : Declaration} {documentation : Option String}
    (hlater : d.kind.isContainer = true → line < d.startLine) {opened : List Frame}
    (hopened : opened = [] ∨ ∃ frame, opened = [frame] ∧ frame.declaration = some r.outline.declarations.length ∧
      (d.kind.isContainer = true → ∃ name, frame.kind = .container name)) :
    Outermost { r.declare d documentation with stack := opened ++ r.stack } := by
  have hplaces : ∀ i < r.outline.declarations.length, i ∈ places (opened ++ r.stack) → i ∈ places r.stack := by
    intro i hi hmem
    rcases hopened with rfl | ⟨frame, rfl, hplace, -⟩
    · exact hmem
    · rw [List.singleton_append, places, List.filterMap_cons_some hplace] at hmem
      exact (List.mem_cons.1 hmem).resolve_left hi.ne
  refine ⟨?_, ?_⟩
  · intro frame hframe i e hplace he hkind
    rcases Ranged.getElem?_concat_cases he with ⟨hi, he⟩ | ⟨rfl, rfl⟩
    · rcases List.mem_append.1 hframe with hframe | hframe
      · obtain ⟨_, rfl, hnew, -⟩ := hopened.resolve_left (List.ne_nil_of_mem hframe)
        obtain rfl := List.mem_singleton.1 hframe
        rw [hplace, Option.some.injEq] at hnew
        exact absurd hnew hi.ne
      · exact h.frames frame hframe i e hplace he hkind
    · rcases List.mem_append.1 hframe with hframe | hframe
      · obtain ⟨_, rfl, -, hcontainer⟩ := hopened.resolve_left (List.ne_nil_of_mem hframe)
        obtain rfl := List.mem_singleton.1 hframe
        exact hcontainer hkind
      · have hbound := hnested.ranged.bounded _ (List.mem_filterMap.2 ⟨frame, hframe, hplace⟩)
        exact absurd hbound (lt_irrefl _)
  · intro i j e d' hij he hd hkind hkind' hnone
    rcases Ranged.getElem?_concat_cases hd with ⟨hj, hd⟩ | ⟨rfl, rfl⟩
    · obtain ⟨-, he⟩ := (Ranged.getElem?_concat_cases he).resolve_right fun hi => by omega
      exact (h.ended i j e d' hij he hd hkind hkind' hnone).imp_left fun hclosed hi => hclosed (hplaces i (hij.trans hj) hi)
    · obtain ⟨-, he⟩ := (Ranged.getElem?_concat_cases he).resolve_right fun hi => absurd hi.1 hij.ne
      have hcontainer : r.container? = none := (Option.or_eq_none_iff.1 hnone).2
      have hend := (hnested.ranged.ranges e (List.mem_of_getElem? he)).2.2
      exact ⟨fun hi => h.not_mem_places hcontainer he hkind (hplaces i hij hi), Nat.lt_of_le_of_lt hend (hlater hkind')⟩

theorem Outermost.heading (h : r.Outermost) (hnested : r.Nested line) {raw code : List Char} {heading : Heading}
    (documentation : Option String) (hline : Heading.ofLine? raw code = some heading) :
    (r.heading raw (line + 1) documentation heading).Outermost := by
  rcases heading_cases hline with rfl | ⟨kind, declared, superclass, rfl, -⟩ | ⟨stated, onSelf, name, tail, signature, rfl, -⟩
  · refine ⟨?_, fun i j e d hij he hd => h.ended i j e d hij he hd⟩
    intro frame hframe i d hplace
    rcases List.mem_cons.1 hframe with rfl | hframe
    · exact absurd hplace (by simp)
    · exact h.frames frame hframe i d hplace
  · rw [Reading.heading]
    dsimp only
    rw [lastPlace_declare]
    exact h.declare hnested (fun _ => Nat.lt_succ_self line) (Or.inr ⟨_, rfl, rfl, fun _ => ⟨_, rfl⟩⟩)
  · have hmethod : ∀ {P : Prop}, SymbolKind.method.isContainer = true → P := fun h => absurd h (by decide)
    rw [Reading.heading]
    split
    · exact h.declare hnested hmethod (Or.inl rfl)
    · rw [lastPlace_declare]
      exact h.declare hnested hmethod (Or.inr ⟨_, rfl, rfl, hmethod⟩)

theorem upheld_outermost : Upheld 0 fun line r => r.Nested line ∧ r.Outermost where
  later hn h := ⟨upheld_nested.later hn h.1, h.2⟩
  congr h hds hstack := ⟨upheld_nested.congr h.1 hds hstack, h.2.congr hds hstack⟩
  pop hn h := ⟨upheld_nested.pop hn h.1, h.2.pop _⟩
  pushBlock hn h := by
    refine ⟨upheld_nested.pushBlock hn h.1, ?_, h.2.ended⟩
    intro frame hframe i d hplace
    rcases List.mem_cons.1 hframe with rfl | hframe
    · exact absurd hplace (by simp)
    · exact h.2.frames frame hframe i d hplace
  heading documentation hn hline h :=
    ⟨upheld_nested.heading documentation hn hline h.1, h.2.heading h.1 documentation hline⟩
  declareLine kind name raw documentation v hn hkind h := by
    refine ⟨upheld_nested.declareLine kind name raw documentation v hn hkind h.1, ?_⟩
    refine h.2.declare h.1 (fun hcontainer => ?_) (Or.inl rfl)
    cases kind <;> simp_all [SymbolKind.isContainer, SymbolKind.isProjected]

end Reading

/-! ## The declarations of a text -/

section

variable {source : String} {before after : List Declaration} {d : Declaration}

/-- A class or module is enclosed by none if and only if all that were declared before it ended before its line. -/
theorem enclosing_eq_none_iff (hds : (ofSource source).declarations = before ++ d :: after) (hd : d.kind.isContainer = true) :
    d.enclosing = none ↔ ∀ e ∈ before, e.kind.isContainer = true → e.endLine < d.startLine := by
  constructor
  · intro hnone e he hkind
    obtain ⟨r, ⟨-, houtermost⟩, -, hread⟩ := Reading.upheld_outermost.ofSource ⟨⟨.nil 0, by simp⟩, by simp, by simp⟩ source
    obtain ⟨i, hi⟩ := List.mem_iff_getElem?.1 he
    have hbound : i < before.length := (List.getElem?_eq_some_iff.1 hi).1
    rw [hds] at hread
    refine (houtermost.ended i before.length e d hbound ?_ ?_ hkind hd hnone).2
    · rw [← hread, List.getElem?_append_left hbound, hi]
    · rw [← hread, List.getElem?_append_right le_rfl, Nat.sub_self, List.getElem?_cons_zero]
  · intro hended
    rw [Option.eq_none_iff_forall_ne_some]
    intro name hname
    have hnested := nested_ofSource source
    obtain ⟨e, he, hkind, -, -, hend⟩ := hnested.enclosed before d after hds name hname
    have hrange := hnested.ranges d (by rw [hds]; simp)
    have := hended e he hkind
    omega

theorem named_ofSource (hmem : d ∈ (ofSource source).declarations) (hd : d.kind.isContainer = true) : Named d := by
  obtain ⟨r, hr, -, hread⟩ := Reading.upheld_allNamed.ofSource (by simp [Reading.AllNamed]) source
  exact hr d (hread ▸ hmem) hd

/-- A class or module has the name that belongs to its path, and what encloses it is open in its line. So its name lies
below the enclosing one if and only if its path is not absolute, or nothing is open, or the path names something below
the enclosing class or module. -/
theorem below_enclosing_iff (hds : (ofSource source).declarations = before ++ d :: after) (hd : d.kind.isContainer = true) :
    ∃ raw path, d.signature = some (String.ofList raw) ∧ declaredPath? raw = some path ∧
      d.name = fullName d.enclosing path ∧
      (d.enclosing = none ↔ ∀ e ∈ before, e.kind.isContainer = true → e.endLine < d.startLine) ∧
      ((∀ outer, d.enclosing = some outer → Below outer d.name) ↔
        ¬ [':', ':'] <+: path ∨ (∀ e ∈ before, e.kind.isContainer = true → e.endLine < d.startLine) ∨
          ∃ outer rest, d.enclosing = some outer ∧ path = [':', ':'] ++ rest ∧ Below outer (String.ofList rest)) := by
  obtain ⟨raw, path, hsignature, hpath, hname⟩ := named_ofSource (hds ▸ by simp : d ∈ (ofSource source).declarations) hd
  have hnone := enclosing_eq_none_iff hds hd
  refine ⟨raw, path, hsignature, hpath, hname, hnone, ?_⟩
  rw [← hnone]
  cases hafter : after? [':', ':'] path with
  | none =>
      have hrelative : ¬ [':', ':'] <+: path := by
        rintro ⟨rest, rfl⟩
        rw [after?_append] at hafter
        exact absurd hafter (by simp)
      refine iff_of_true ?_ (Or.inl hrelative)
      intro outer houter
      have hfull : fullName (some outer) path = outer ++ "::" ++ String.ofList path := by
        unfold fullName
        rw [hafter]
      rw [hname, houter, hfull]
      exact below_append outer path
  | some rest =>
      have hrest : path = [':', ':'] ++ rest := after?_eq_some_iff.1 hafter
      have hfull : fullName d.enclosing path = String.ofList rest := by
        unfold fullName
        rw [hafter]
      rw [hname, hfull]
      constructor
      · intro hbelow
        cases houter : d.enclosing with
        | none => exact Or.inr (Or.inl rfl)
        | some outer => exact Or.inr (Or.inr ⟨outer, rest, rfl, hrest, hbelow outer houter⟩)
      · rintro (hrelative | houter | ⟨outer, rest', houter, hrest', hbelow⟩) inner hinner
        · exact absurd ⟨rest, hrest.symm⟩ hrelative
        · rw [houter] at hinner
          exact absurd hinner (by simp)
        · rw [houter, Option.some.injEq] at hinner
          rw [hrest, List.append_cancel_left_eq] at hrest'
          rwa [← hinner, hrest']

end

/-- A class with an absolute path in a module. -/
def absoluteSource : String := "module A\n  class ::B\n  end\nend\n"

/-- The module of `absoluteSource` as it is read. -/
def outerModule : Declaration :=
  { name := "A", kind := .moduleDecl, startLine := 1, endLine := 4, signature := some "module A" }

/-- The class of `absoluteSource` as it is read. -/
def absoluteClass : Declaration :=
  { name := "B", kind := .classDecl, enclosing := some "A", startLine := 2, endLine := 3, signature := some "class ::B" }

theorem declarations_absoluteSource : (ofSource absoluteSource).declarations = [outerModule] ++ absoluteClass :: [] := by
  decide +kernel

theorem below_enclosing_iff_absolute :
    ∃ raw path, absoluteClass.signature = some (String.ofList raw) ∧ declaredPath? raw = some path ∧
      absoluteClass.name = fullName absoluteClass.enclosing path ∧
      (absoluteClass.enclosing = none ↔
        ∀ e ∈ [outerModule], e.kind.isContainer = true → e.endLine < absoluteClass.startLine) ∧
      ((∀ outer, absoluteClass.enclosing = some outer → Below outer absoluteClass.name) ↔
        ¬ [':', ':'] <+: path ∨ (∀ e ∈ [outerModule], e.kind.isContainer = true → e.endLine < absoluteClass.startLine) ∨
          ∃ outer rest, absoluteClass.enclosing = some outer ∧ path = [':', ':'] ++ rest ∧ Below outer (String.ofList rest)) :=
  below_enclosing_iff declarations_absoluteSource rfl

/-- The class `::B` in the module `A` is enclosed by `A`, and its name does not lie below it. -/
theorem exists_enclosed_not_below : ∃ source, ∃ d ∈ (ofSource source).declarations, d.kind.isContainer = true ∧
    d.signature = some "class ::B" ∧ ∃ outer, d.enclosing = some outer ∧ ¬ Below outer d.name := by
  have hmem : absoluteClass ∈ (ofSource absoluteSource).declarations := by
    rw [declarations_absoluteSource]
    simp
  refine ⟨absoluteSource, absoluteClass, hmem, rfl, rfl, "A", rfl, ?_⟩
  unfold Below
  decide

end CodeAtlas.Outline
