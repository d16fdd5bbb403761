import CodeAtlas.Proofs.Outline.Acts
import Mathlib.Data.Nat.Basic
import Mathlib.Order.Basic
/-!
# Lines of declarations

Whatever the text is, the lines of what is declared in it are nested: declarations are listed by their first lines, of
two classes, modules or methods the first ends before the second starts or holds it to its end, and what encloses a
declaration is a class or module listed before it that holds its lines (`nested_ofSource`).

While a file is read, the declarations that are still open are those on the stack. `Ranged` says that any declaration
which could hold another is open still, or has taken the other in; adding a declaration keeps this, and so does ending
the one that was opened last.
-/

namespace CodeAtlas

/-- The lines of a declaration lie within those of another. -/
def Declaration.Within (d e : Declaration) : Prop := e.startLine ≤ d.startLine ∧ d.endLine ≤ e.endLine

/-- What is declared where. -/
structure Located where
  kind : SymbolKind
  name : String
  enclosing : Option String
  first : Nat
  last : Nat
deriving DecidableEq

def Declaration.located (d : Declaration) : Located := ⟨d.kind, d.name, d.enclosing, d.startLine, d.endLine⟩

namespace Outline

open CodeAtlas.Text

/-- The declarations of an outline of `lines` lines lie in it, one after the other or one in the other. -/
structure Nested (o : Outline) (lines : Nat) : Prop where
  lineCount : o.lineCount = some lines
  ranges : ∀ d ∈ o.declarations, 1 ≤ d.startLine ∧ d.startLine ≤ d.endLine ∧ d.endLine ≤ lines
  starts : o.declarations.Pairwise fun d e => d.startLine ≤ e.startLine
  apart : o.declarations.Pairwise fun d e =>
    d.kind.isProjected = true → e.kind.isProjected = true → d.endLine < e.startLine ∨ e.endLine ≤ d.endLine
  enclosed : ∀ before d after, o.declarations = before ++ d :: after → ∀ name, d.enclosing = some name →
    ∃ e ∈ before, e.kind.isContainer = true ∧ e.name = name ∧ d.Within e

/-! ## Declarations some of which are open -/

/-- The declaration `d` at the place `i` is open, or has taken in `e` at the place `j` to its end. -/
def Holds (places : List Nat) (i j : Nat) (d e : Declaration) : Prop :=
  i ∈ places ∨ j ∉ places ∧ e.endLine ≤ d.endLine

theorem Holds.imp {places places' : List Nat} {i j : Nat} {d e : Declaration} (h : Holds places i j d e)
    (hi : i ∈ places → i ∈ places') (hj : j ∈ places' → j ∈ places) : Holds places' i j d e :=
  Or.imp hi (And.imp_left (mt hj)) h

/-- The declarations read up to a line, and the places of those that are open, innermost first. -/
structure Ranged (ds : List Declaration) (places : List Nat) (line : Nat) : Prop where
  ranges : ∀ d ∈ ds, 1 ≤ d.startLine ∧ d.startLine ≤ d.endLine ∧ d.endLine ≤ line
  starts : ds.Pairwise fun d e => d.startLine ≤ e.startLine
  bounded : ∀ i ∈ places, i < ds.length
  descending : places.Pairwise (· > ·)
  apart : ∀ i j d e, i < j → ds[i]? = some d → ds[j]? = some e → d.kind.isProjected = true → e.kind.isProjected = true →
    d.endLine < e.startLine ∨ Holds places i j d e
  enclosed : ∀ j d name, ds[j]? = some d → d.enclosing = some name →
    ∃ i < j, ∃ e, ds[i]? = some e ∧ e.kind.isContainer = true ∧ e.name = name ∧ Holds places i j e d

namespace Ranged

variable {ds : List Declaration} {places : List Nat} {line : Nat}

theorem nil (line : Nat) : Ranged [] [] line := by
  constructor <;> simp

theorem mono (h : Ranged ds places line) {later : Nat} (hle : line ≤ later) : Ranged ds places later := by
  refine ⟨?_, h.starts, h.bounded, h.descending, h.apart, h.enclosed⟩
  intro d hd
  obtain ⟨hstart, hend, hline⟩ := h.ranges d hd
  exact ⟨hstart, hend, hline.trans hle⟩

theorem getElem?_concat_cases {d e : Declaration} {j : Nat} (h : (ds ++ [d])[j]? = some e) :
    (j < ds.length ∧ ds[j]? = some e) ∨ (j = ds.length ∧ e = d) := by
  have hj : j < ds.length + 1 := by simpa using (List.getElem?_eq_some_iff.1 h).1
  rcases Nat.lt_or_eq_of_le (Nat.le_of_lt_succ hj) with hj | rfl
  · rw [List.getElem?_append_left hj] at h
    exact Or.inl ⟨hj, h⟩
  · rw [List.getElem?_concat_length] at h
    exact Or.inr ⟨rfl, (Option.some.inj h).symm⟩

/-- What holds of earlier declarations holds still when a new place is opened. -/
theorem holds_append {extra : List Nat} (hextra : extra = [] ∨ extra = [ds.length]) {i j : Nat} (hj : j < ds.length)
    {d e : Declaration} (h : Holds places i j d e) : Holds (extra ++ places) i j d e := by
  refine h.imp (List.mem_append_right _) ?_
  intro hmem
  rcases hextra with rfl | rfl
  · exact hmem
  · exact (List.mem_cons.1 hmem).resolve_left hj.ne

/-- A declaration that starts and ends on this line is added; it is left open (`extra`) or not. A class, module or
method must be the first thing of its line that starts or ends. -/
theorem add (h : Ranged ds places line) {d : Declaration} {here : Nat} (hle : line ≤ here) (hpos : 1 ≤ here)
    (hlines : d.startLine = here ∧ d.endLine = here) (hlater : d.kind.isProjected = true → line < here)
    (hcontainer : ∀ name, d.enclosing = some name →
      ∃ i ∈ places, ∃ e, ds[i]? = some e ∧ e.kind.isContainer = true ∧ e.name = name)
    {extra : List Nat} (hextra : extra = [] ∨ extra = [ds.length]) :
    Ranged (ds ++ [d]) (extra ++ places) here := by
  have hearlier : ∀ a ∈ ds, a.startLine ≤ here := fun a ha => by
    have := h.ranges a ha
    omega
  constructor
  · intro a ha
    rcases List.mem_append.1 ha with ha | ha
    · exact (h.mono hle).ranges a ha
    · rw [List.mem_singleton.1 ha]
      omega
  · refine List.pairwise_append.2 ⟨h.starts, List.pairwise_singleton _ _, ?_⟩
    intro a ha b hb
    rw [List.mem_singleton.1 hb, hlines.1]
    exact hearlier a ha
  · intro i hi
    rw [List.length_append, List.length_singleton]
    rcases List.mem_append.1 hi with hi | hi
    · rcases hextra with rfl | rfl <;> simp_all
    · exact (h.bounded i hi).trans (Nat.lt_succ_self _)
  · rcases hextra with rfl | rfl
    · exact h.descending
    · exact List.pairwise_cons.2 ⟨h.bounded, h.descending⟩
  · intro i j a b hij ha hb hkind hkind'
    rcases getElem?_concat_cases hb with ⟨hj, hb⟩ | ⟨rfl, rfl⟩
    · rw [List.getElem?_append_left (hij.trans hj)] at ha
      exact (h.apart i j a b hij ha hb hkind hkind').imp_right (holds_append hextra hj)
    · rw [List.getElem?_append_left hij] at ha
      by_cases hopen : i ∈ places
      · exact Or.inr (Or.inl (List.mem_append_right _ hopen))
      · have := (h.ranges a (List.mem_of_getElem? ha)).2.2
        have := hlater hkind'
        exact Or.inl (by omega)
  · intro j b name hb hname
    rcases getElem?_concat_cases hb with ⟨hj, hb⟩ | ⟨rfl, rfl⟩
    · obtain ⟨i, hij, e, he, hkind, hnamed, hheld⟩ := h.enclosed j b name hb hname
      refine ⟨i, hij, e, ?_, hkind, hnamed, holds_append hextra hj hheld⟩
      rw [List.getElem?_append_left (hij.trans hj), he]
    · obtain ⟨i, hi, e, he, hkind, hnamed⟩ := hcontainer name hname
      refine ⟨i, h.bounded i hi, e, ?_, hkind, hnamed, Or.inl (List.mem_append_right _ hi)⟩
      rw [List.getElem?_append_left (h.bounded i hi), he]

/-- What becomes of the declaration at the place `j` when the one at `i` is ended. -/
def ended (i line j : Nat) (d : Declaration) : Declaration := if i = j then { d with endLine := line } else d

theorem ended_frame (i line j : Nat) (d : Declaration) :
    (ended i line j d).startLine = d.startLine ∧ (ended i line j d).kind = d.kind ∧ (ended i line j d).name = d.name ∧
      (ended i line j d).enclosing = d.enclosing := by
  unfold ended
  split <;> exact ⟨rfl, rfl, rfl, rfl⟩

theorem endLine_ended (i line j : Nat) (d : Declaration) :
    (ended i line j d).endLine = if i = j then line else d.endLine := by
  unfold ended
  split <;> rfl

theorem getElem?_modify_cases {i j : Nat} {e : Declaration}
    (h : (ds.modify i fun d => { d with endLine := line })[j]? = some e) :
    ∃ d, ds[j]? = some d ∧ e = ended i line j d := by
  rw [List.getElem?_modify] at h
  obtain ⟨d, hd, rfl⟩ := Option.map_eq_some_iff.1 h
  exact ⟨d, hd, rfl⟩

/-- Ending the innermost declaration takes in all that came after it. -/
theorem holds_ended {i k j : Nat} {d e : Declaration} (hinner : ∀ p ∈ places, p < i) (hkj : k < j)
    (hline : e.endLine ≤ line) (h : Holds (i :: places) k j d e) : Holds places k j (ended i line k d) (ended i line j e) := by
  rw [Holds, endLine_ended, endLine_ended]
  rcases eq_or_ne i k with rfl | hk
  · have hj : j ∉ places := fun hmem => absurd (hinner j hmem) (by omega)
    rw [if_pos rfl, if_neg hkj.ne]
    exact Or.inr ⟨hj, hline⟩
  · rw [if_neg hk]
    rcases h with hopen | ⟨hclosed, hle⟩
    · exact Or.inl ((List.mem_cons.1 hopen).resolve_left hk.symm)
    · rw [List.mem_cons, not_or] at hclosed
      rw [if_neg (Ne.symm hclosed.1)]
      exact Or.inr ⟨hclosed.2, hle⟩

/-- The innermost of the open declarations is ended. -/
theorem close {i : Nat} (h : Ranged ds (i :: places) line) :
    Ranged (ds.modify i fun d => { d with endLine := line }) places line := by
  obtain ⟨hinner, hdescending⟩ := List.pairwise_cons.1 h.descending
  have hline : ∀ {j : Nat} {d : Declaration}, ds[j]? = some d → d.endLine ≤ line := fun hd =>
    (h.ranges _ (List.mem_of_getElem? hd)).2.2
  constructor
  · intro e he
    obtain ⟨j, hj⟩ := List.mem_iff_getElem?.1 he
    obtain ⟨d, hd, rfl⟩ := getElem?_modify_cases hj
    have hrange := h.ranges d (List.mem_of_getElem? hd)
    rw [(ended_frame i line j d).1, endLine_ended]
    split <;> omega
  · have hstarts : (ds.modify i fun d => { d with endLine := line }).map Declaration.startLine =
        ds.map Declaration.startLine :=
      Reading.map_modify_of_invariant (f := fun d => { d with endLine := line }) (fun _ => rfl) ds i
    have hsorted := List.pairwise_map.2 h.starts
    rw [← hstarts] at hsorted
    exact List.pairwise_map.1 hsorted
  · intro j hj
    rw [List.length_modify]
    exact h.bounded j (List.mem_cons_of_mem _ hj)
  · exact hdescending
  · intro k j d' e' hkj hd' he' hkind hkind'
    obtain ⟨d, hd, rfl⟩ := getElem?_modify_cases hd'
    obtain ⟨e, he, rfl⟩ := getElem?_modify_cases he'
    rw [(ended_frame i line k d).2.1] at hkind
    rw [(ended_frame i line j e).2.1] at hkind'
    rw [(ended_frame i line j e).1]
    rcases h.apart k j d e hkj hd he hkind hkind' with hbefore | hheld
    · rcases eq_or_ne i k with rfl | hk
      · exact Or.inr (holds_ended hinner hkj (hline he) (Or.inl List.mem_cons_self))
      · rw [endLine_ended, if_neg hk]
        exact Or.inl hbefore
    · exact Or.inr (holds_ended hinner hkj (hline he) hheld)
  · intro j e' name he' hname
    obtain ⟨e, he, rfl⟩ := getElem?_modify_cases he'
    rw [(ended_frame i line j e).2.2.2] at hname
    obtain ⟨k, hkj, d, hd, hkind, hnamed, hheld⟩ := h.enclosed j e name he hname
    refine ⟨k, hkj, ended i line k d, ?_, ?_, ?_, holds_ended hinner hkj (hline he) hheld⟩
    · rw [List.getElem?_modify, hd]
      rfl
    · rw [(ended_frame i line k d).2.1, hkind]
    · rw [(ended_frame i line k d).2.2.1, hnamed]

end Ranged

/-! ## One line -/

/-- A frame of a class or module ends the declaration of that class or module. -/
def Frame.Marks (frame : Frame) (ds : List Declaration) : Prop :=
  ∀ name, frame.kind = .container name →
    ∃ i, frame.declaration = some i ∧ ∃ e, ds[i]? = some e ∧ e.kind.isContainer = true ∧ e.name = name

namespace Reading

variable {r : Reading} {raw code : List Char} {line here : Nat} {documentation : Option String}

/-- The places of the declarations that frames will end, innermost first. -/
def places (stack : List Frame) : List Nat := stack.filterMap Frame.declaration

theorem places_congr {stack stack' : List Frame}
    (h : stack'.map (fun f => (f.kind, f.declaration)) = stack.map fun f => (f.kind, f.declaration)) :
    places stack' = places stack := by
  have hplaces : ∀ stack : List Frame, places stack = (stack.map fun f => (f.kind, f.declaration)).filterMap Prod.snd := by
    intro stack
    rw [List.filterMap_map]
    rfl
  rw [hplaces, h, ← hplaces]

/-- What was read up to a line is nested, as far as it has ended. -/
structure Nested (r : Reading) (line : Nat) : Prop where
  ranged : Ranged r.outline.declarations (places r.stack) line
  marks : ∀ frame ∈ r.stack, frame.Marks r.outline.declarations

theorem Nested.mono (h : r.Nested line) (hle : line ≤ here) : r.Nested here := ⟨h.ranged.mono hle, h.marks⟩

/-- Readings with the same declarations and the same kinds and places of frames are nested alike. -/
theorem Nested.congr (h : r.Nested line) {r' : Reading} (hds : r'.outline.declarations = r.outline.declarations)
    (hstack : r'.stack.map (fun f => (f.kind, f.declaration)) = r.stack.map fun f => (f.kind, f.declaration)) :
    r'.Nested line := by
  refine ⟨?_, ?_⟩
  · rw [hds, places_congr hstack]
    exact h.ranged
  · intro frame hframe
    have hmem : (frame.kind, frame.declaration) ∈ r.stack.map fun f => (f.kind, f.declaration) := by
      rw [← hstack]
      exact List.mem_map_of_mem hframe
    obtain ⟨old, hold, heq⟩ := List.mem_map.1 hmem
    have hmarks := h.marks old hold
    rw [Frame.Marks, (Prod.mk.inj heq).1, (Prod.mk.inj heq).2] at hmarks
    rw [hds]
    exact hmarks

theorem Nested.pushPlain (h : r.Nested line) {frame : Frame} (hplace : frame.declaration = none)
    (hkind : ∀ name, frame.kind ≠ .container name) : (r.push frame).Nested line := by
  refine ⟨?_, ?_⟩
  · have hplaces : places (r.push frame).stack = places r.stack := by
      rw [stack_push, places, List.filterMap_cons_none hplace, places]
    rw [hplaces]
    exact h.ranged
  · intro f hf
    rcases List.mem_cons.1 hf with rfl | hf
    · exact fun name hname => absurd hname (hkind name)
    · exact h.marks f hf

theorem Nested.pop (h : r.Nested line) : (r.pop line).Nested line := by
  unfold Reading.pop
  split
  · exact h
  next frame rest hstack =>
    have hranged := h.ranged
    have hmarks : ∀ f ∈ rest, f.Marks r.outline.declarations := fun f hf =>
      h.marks f (by rw [hstack]; exact List.mem_cons_of_mem _ hf)
    rw [hstack] at hranged
    split
    next place hplace =>
      rw [places, List.filterMap_cons_some hplace] at hranged
      refine ⟨hranged.close, ?_⟩
      intro f hf name hname
      obtain ⟨i, hi, e, he, hkind, hnamed⟩ := hmarks f hf name hname
      refine ⟨i, hi, Ranged.ended place line i e, ?_, ?_, ?_⟩
      · rw [endDeclaration, List.getElem?_modify, he]
        rfl
      · rw [(Ranged.ended_frame place line i e).2.1, hkind]
      · rw [(Ranged.ended_frame place line i e).2.2.1, hnamed]
    next hplace =>
      rw [places, List.filterMap_cons_none hplace] at hranged
      exact ⟨hranged, hmarks⟩

theorem Nested.popMany (h : r.Nested line) (n : Nat) : (r.popMany line n).Nested line := by
  induction n generalizing r with
  | zero => exact h
  | succ n ih => exact ih h.pop

/-- The innermost class or module is open. -/
theorem Nested.container (h : r.Nested line) {name : String} (hname : r.container? = some name) :
    ∃ i ∈ places r.stack, ∃ e, r.outline.declarations[i]? = some e ∧ e.kind.isContainer = true ∧ e.name = name := by
  obtain ⟨frame, hframe, hkind⟩ := List.exists_of_findSome?_eq_some hname
  have hcontainer : frame.kind = .container name := by
    split at hkind
    next heq => rw [heq, Option.some.inj hkind]
    next => exact absurd hkind (by simp)
  obtain ⟨i, hi, e, he⟩ := h.marks frame hframe name hcontainer
  exact ⟨i, List.mem_filterMap.2 ⟨frame, hframe, hi⟩, e, he⟩

/-- A declaration of this line is added, enclosed by the innermost class or module, and a frame for it may be opened. -/
theorem Nested.declare (h : r.Nested line) (hle : line ≤ here) (hpos : 1 ≤ here) {d : Declaration}
    (hlines : d.startLine = here ∧ d.endLine = here) (hlater : d.kind.isProjected = true → line < here)
    (henclosing : d.enclosing = none ∨ d.enclosing = r.container?) {opened : List Frame}
    (hopened : opened = [] ∨ ∃ frame, opened = [frame] ∧ frame.declaration = some r.outline.declarations.length ∧
      ∀ name, frame.kind = .container name → d.kind.isContainer = true ∧ d.name = name) :
    Nested { r.declare d documentation with stack := opened ++ r.stack } here := by
  have henclosed : d.enclosing.or r.container? = r.container? := by
    rcases henclosing with hnone | hsame
    · rw [hnone, Option.none_or]
    · rw [hsame, Option.or_self]
  refine ⟨?_, ?_⟩
  · have hplaces : places (opened ++ r.stack) = places opened ++ places r.stack := List.filterMap_append
    rw [hplaces]
    refine h.ranged.add (d := { d with enclosing := d.enclosing.or r.container?, documentation := documentation })
      hle hpos hlines hlater ?_ ?_
    · intro name hname
      exact h.container (henclosed.symm.trans hname)
    · rcases hopened with rfl | ⟨frame, rfl, hplace, -⟩
      · exact Or.inl rfl
      · exact Or.inr (by rw [places, List.filterMap_cons_some hplace, List.filterMap_nil])
  · intro f hf name hname
    rcases List.mem_append.1 hf with hf | hf
    · obtain ⟨frame, rfl, hplace, hkind⟩ := hopened.resolve_left (List.ne_nil_of_mem hf)
      obtain rfl := List.mem_singleton.1 hf
      exact ⟨_, hplace, _, List.getElem?_concat_length, hkind name hname⟩
    · obtain ⟨i, hi, e, he, hkind, hnamed⟩ := h.marks f hf name hname
      refine ⟨i, hi, e, ?_, hkind, hnamed⟩
      exact (List.getElem?_append_left (List.getElem?_eq_some_iff.1 he).1).trans he

theorem lastPlace_declare (r : Reading) (d : Declaration) (documentation : Option String) :
    (r.declare d documentation).lastPlace = r.outline.declarations.length := by
  simp [lastPlace, Reading.declare]

theorem qualify_enclosing (r : Reading) (declared : List Char) :
    (r.qualify declared).2 = none ∨ (r.qualify declared).2 = r.container? := by
  unfold qualify
  split
  · exact Or.inl rfl
  · split
    next hcontainer => exact Or.inr hcontainer.symm
    next => exact Or.inl rfl

/-- A heading is the first thing of its line, so all that has ended before it ended on another line. -/
theorem Nested.heading (h : r.Nested line) (hlt : line < here) {heading : Heading}
    (hline : Heading.ofLine? raw code = some heading) :
    (r.heading raw here documentation heading).Nested here := by
  have hpos : 1 ≤ here := by omega
  rcases heading_cases hline with rfl | ⟨kind, declared, superclass, rfl, hkind, -⟩ |
    ⟨stated, onSelf, name, tail, signature, rfl, -⟩
  · exact (h.mono hlt.le).pushPlain rfl (by simp)
  · rw [Reading.heading]
    dsimp only
    rw [lastPlace_declare]
    refine h.declare hlt.le hpos ⟨rfl, rfl⟩ (fun _ => hlt) (qualify_enclosing r declared) (Or.inr ⟨_, rfl, rfl, ?_⟩)
    rintro name ⟨⟩
    exact ⟨hkind, rfl⟩
  · rw [Reading.heading]
    split
    · exact h.declare hlt.le hpos ⟨rfl, rfl⟩ (fun _ => hlt) (Or.inl rfl) (Or.inl rfl)
    · rw [lastPlace_declare]
      exact h.declare hlt.le hpos ⟨rfl, rfl⟩ (fun _ => hlt) (Or.inl rfl) (Or.inr ⟨_, rfl, rfl, by simp⟩)

theorem Nested.declareLine (h : r.Nested line) (hpos : 1 ≤ line) {kind : SymbolKind} (hkind : kind.isProjected = false)
    (name : String) (v : Visibility) : (r.declareLine kind name raw line documentation v).Nested line :=
  h.declare le_rfl hpos ⟨rfl, rfl⟩ (by simp [hkind]) (Or.inl rfl) (Or.inl rfl)

theorem upheld_nested : Upheld 0 fun line r => r.Nested line where
  later _ h := h.mono (Nat.le_succ _)
  congr h hds hstack := h.congr hds hstack
  pop _ h := h.pop
  pushBlock _ h := h.pushPlain rfl (by simp)
  heading _ _ hline h := h.heading (Nat.lt_succ_self _) hline
  declareLine kind name raw documentation v hpos hkind h := h.declareLine hpos hkind name v

end Reading

/-! ## All lines -/

namespace Progress

theorem nested_foldl {p : Progress} (h : p.reading.Nested p.lines) (texts : List (List Char)) :
    (texts.foldl step p).reading.Nested (texts.foldl step p).lines ∧
      (texts.foldl step p).lines = p.lines + texts.length :=
  ⟨Reading.upheld_nested.foldl (Nat.zero_le _) h texts, lines_foldl p texts⟩

end Progress

/-- Once no declaration is open, what is nested as far as it has ended is nested. -/
theorem Ranged.nested {o : Outline} {line : Nat} (h : Ranged o.declarations [] line)
    (hcount : o.lineCount = some line) : o.Nested line := by
  have hheld : ∀ {i j : Nat} {d e : Declaration}, Holds [] i j d e → e.endLine ≤ d.endLine := fun hheld =>
    (hheld.resolve_left List.not_mem_nil).2
  refine ⟨hcount, h.ranges, h.starts, ?_, ?_⟩
  · rw [List.pairwise_iff_getElem]
    intro i j hi hj hij hkind hkind'
    exact (h.apart i j _ _ hij (List.getElem?_eq_getElem hi) (List.getElem?_eq_getElem hj) hkind hkind').imp_right hheld
  · intro before d after hds name hname
    have hd : o.declarations[before.length]? = some d := by
      rw [hds, List.getElem?_append_right le_rfl, Nat.sub_self, List.getElem?_cons_zero]
    obtain ⟨i, hi, e, he, hkind, hnamed, hend⟩ := h.enclosed _ d name hd hname
    have hbefore : e ∈ before := by
      rw [hds, List.getElem?_append_left hi] at he
      exact List.mem_of_getElem? he
    have hstart : e.startLine ≤ d.startLine := by
      have hstarts := h.starts
      rw [hds] at hstarts
      exact (List.pairwise_append.1 hstarts).2.2 e hbefore d List.mem_cons_self
    exact ⟨e, hbefore, hkind, hnamed, hstart, hheld hend⟩

/-- The lines of the declarations of any text are nested. -/
theorem nested_ofSource (source : String) : (ofSource source).Nested (lines source.toList).length := by
  have hstart : ({} : Progress).reading.Nested ({} : Progress).lines := ⟨.nil 0, by simp⟩
  obtain ⟨hnested, hlines⟩ := Progress.nested_foldl hstart (lines source.toList)
  rw [show ({} : Progress).lines = 0 from rfl, Nat.zero_add] at hlines
  rw [ofSource, ← hlines]
  generalize (lines source.toList).foldl Progress.step {} = p at hnested ⊢
  -- at the end of the text every frame is popped
  have hclosed := (hnested.popMany p.reading.stack.length).ranged
  rw [Reading.stack_popMany, List.drop_length] at hclosed
  exact Ranged.nested hclosed rfl

end Outline

end CodeAtlas
