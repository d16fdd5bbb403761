import CodeAtlas.Proofs.Outline.Acts
import Mathlib.Data.List.Nodup
/-!
# One heading a line

A line opens one class, module or method at most, whatever else it declares. So no two of them start in the same line
of a text: the line tells which one is meant (`eq_of_startLine_eq`).
-/

namespace CodeAtlas.Outline

open CodeAtlas.Text

namespace Reading

/-- The lines in which the classes, modules and methods read so far start. -/
def starts (r : Reading) : List Nat :=
  (r.outline.declarations.filter (·.kind.isProjected)).map (·.startLine)

variable {r : Reading} {raw code : List Char} {line : Nat} {documentation : Option String}

theorem starts_eq (r : Reading) :
    r.starts = ((r.outline.declarations.map fun d => (d.kind, d.startLine)).filter (·.1.isProjected)).map Prod.snd := by
  rw [starts, List.filter_map, List.map_map]
  rfl

theorem starts_pop (r : Reading) (line : Nat) : (r.pop line).starts = r.starts := by
  rw [starts_eq, starts_eq, map_declarations_pop fun _ _ => rfl]

theorem starts_declare (r : Reading) (d : Declaration) (documentation : Option String) :
    (r.declare d documentation).starts = r.starts ++ if d.kind.isProjected then [d.startLine] else [] := by
  simp only [starts, declare, List.filter_append, List.map_append, List.filter_singleton]
  cases d.kind.isProjected <;> rfl

/-- A heading opens one class, module or method at most. -/
theorem starts_heading {h : Heading} (hline : Heading.ofLine? raw code = some h) :
    (r.heading raw line documentation h).starts = r.starts ∨
      (r.heading raw line documentation h).starts = r.starts ++ [line] := by
  rcases heading_cases hline with rfl | ⟨kind, declared, superclass, rfl, hkind, -⟩ |
    ⟨v, onSelf, name, tail, signature, rfl, -⟩
  · exact Or.inl rfl
  · have hprojected : kind.isProjected = true := by
      cases kind <;> simp_all [SymbolKind.isContainer, SymbolKind.isProjected]
    refine Or.inr ((starts_declare _ _ _).trans ?_)
    rw [hprojected]
    rfl
  · refine Or.inr ?_
    rw [heading]
    split <;> exact starts_declare _ _ _

/-- What was opened so far was opened in different lines, none of them after the last line read. -/
structure Rising (r : Reading) (line : Nat) : Prop where
  increasing : r.starts.Pairwise (· < ·)
  bounded : ∀ start ∈ r.starts, start ≤ line

theorem Rising.mono (h : r.Rising line) : r.Rising (line + 1) :=
  ⟨h.increasing, fun start hstart => Nat.le_succ_of_le (h.bounded start hstart)⟩

theorem Rising.of_starts_eq (h : r.Rising line) {r' : Reading} (hstarts : r'.starts = r.starts) : r'.Rising line := by
  refine ⟨?_, ?_⟩
  · rw [hstarts]
    exact h.increasing
  · rw [hstarts]
    exact h.bounded

theorem Rising.concat (h : r.Rising line) {r' : Reading} (hstarts : r'.starts = r.starts ++ [line + 1]) :
    r'.Rising (line + 1) := by
  refine ⟨?_, ?_⟩
  · rw [hstarts, List.pairwise_append]
    refine ⟨h.increasing, List.pairwise_singleton _ _, ?_⟩
    intro start hstart here hhere
    rw [List.mem_singleton.1 hhere]
    exact Nat.lt_succ_of_le (h.bounded start hstart)
  · rw [hstarts, List.forall_mem_append]
    exact ⟨h.mono.bounded, by simp⟩

theorem upheld_rising : Upheld 0 fun line r => r.Rising line where
  later _ h := h.mono
  congr h hds _ := h.of_starts_eq (by rw [starts, hds, starts])
  pop _ h := h.of_starts_eq (starts_pop _ _)
  pushBlock _ h := h.of_starts_eq rfl
  heading _ _ hline h := (starts_heading hline).elim h.mono.of_starts_eq h.concat
  declareLine kind name raw documentation v _ hkind h := by
    refine h.of_starts_eq ((starts_declare _ _ _).trans ?_)
    simp [hkind]

end Reading

/-- Of the classes, modules and methods of a text, no two start in the same line. -/
theorem eq_of_startLine_eq {source : String} {d e : Declaration} (hd : d ∈ (ofSource source).declarations)
    (he : e ∈ (ofSource source).declarations) (hkind : d.kind.isProjected = true) (hkind' : e.kind.isProjected = true)
    (h : d.startLine = e.startLine) : d = e := by
  obtain ⟨r, hrising, -, hds⟩ :=
    Reading.upheld_rising.ofSource ⟨List.Pairwise.nil, by simp [Reading.starts]⟩ source
  rw [hds] at hd he
  have hends : r.starts.Nodup := hrising.increasing.imp Nat.ne_of_lt
  exact List.inj_on_of_nodup_map hends (List.mem_filter.2 ⟨hd, hkind⟩) (List.mem_filter.2 ⟨he, hkind'⟩) h

end CodeAtlas.Outline
