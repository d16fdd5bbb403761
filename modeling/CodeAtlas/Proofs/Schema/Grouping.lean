import CodeAtlas.Proofs.Text.Parts
import CodeAtlas.Schema.Statement
import Mathlib.Algebra.BigOperators.Group.List.Basic
import Mathlib.Algebra.Ring.Int.Defs
import Mathlib.Data.List.Forall2
import Mathlib.Data.List.Infix
/-!
# The lines of a statement

The lines of a source that hold something are cut into groups, and each group is joined to a statement. A group goes on
until it is complete: `Complete` says so of a group as a whole, without the depth and the count that are carried along
from line to line. `Grouping` is the cut at the first line where that is so, and there is only one
(`Grouping.unique`). The statements of a source are those of its groups (`statements_joined`), so no line is lost or read
twice, and an unbalanced bracket reaches no further than `maxJoined` lines.
-/

namespace CodeAtlas.Schema

open CodeAtlas.Text

/-! ## Lines that hold something -/

/-- A line with its number, without its comment and the blanks around. -/
def codeLine (line : List Char × Nat) : CodeLine := ⟨line.2, trim (Scan.withoutComment line.1)⟩

/-- The lines of a source, counted from one, that hold something without their comments. -/
def heldLines (source : String) : List CodeLine :=
  (((lines source.toList).zipIdx 1).map codeLine).filter (·.text ≠ [])

theorem codeLinesFrom_eq (n : Nat) (ls : List (List Char)) :
    codeLinesFrom n ls = ((ls.zipIdx n).map codeLine).filter (·.text ≠ []) := by
  induction ls generalizing n with
  | nil => rfl
  | cons line rest ih =>
      rw [codeLinesFrom, ih, List.zipIdx_cons, List.map_cons, codeLine]
      dsimp only
      split
      · next hnone => rw [List.filter_cons_of_neg (by simpa using hnone)]
      · next hsome => rw [List.filter_cons_of_pos (by simpa using hsome)]

theorem codeLines_eq (source : String) : codeLines source.toList = heldLines source := codeLinesFrom_eq 1 _

/-! ## Groups that are complete -/

/-- How many brackets some lines leave open, taken together. -/
def openBrackets (group : List CodeLine) : Int := (group.map fun line => Scan.openDepth line.text).sum

theorem openBrackets_concat (group : List CodeLine) (line : CodeLine) :
    openBrackets (group ++ [line]) = openBrackets group + Scan.openDepth line.text := by
  simp [openBrackets]

/-- Lines make up a statement if they leave no bracket open and the last does not end in a comma, or if they are as many
as a statement may have. -/
def Complete (group : List CodeLine) : Prop :=
  (openBrackets group ≤ 0 ∧ (group.getLast?.bind (·.text.getLast?)) ≠ some ',') ∨ group.length = maxJoined

/-- Lines that a statement may begin with and go on: they are not complete, nor were they before. -/
def Pending (group : List CodeLine) : Prop := ∀ start, start <+: group → start ≠ [] → ¬ Complete start

theorem pending_nil : Pending [] := fun _ hstart hne => absurd (List.prefix_nil.1 hstart) hne

variable {held group start : List CodeLine} {groups : List (List CodeLine)}

theorem Pending.mono (h : Pending group) (hstart : start <+: group) : Pending start :=
  fun first hfirst => h first (hfirst.trans hstart)

theorem Pending.concat {line : CodeLine} (h : Pending group) (hopen : ¬ Complete (group ++ [line])) :
    Pending (group ++ [line]) := by
  intro start hstart hne
  rcases List.prefix_concat_iff.1 hstart with rfl | hbefore
  · exact hopen
  · exact h start hbefore hne

theorem Pending.length_lt (h : Pending group) : group.length < maxJoined := by
  by_contra hlong
  have hlength : (group.take maxJoined).length = maxJoined := List.length_take_of_le (by omega)
  have hmost : 0 < maxJoined := by decide
  have hne : group.take maxJoined ≠ [] := List.ne_nil_of_length_pos (hlength.symm ▸ hmost)
  exact h _ (List.take_prefix _ _) hne (Or.inr hlength)

/-- A statement goes on after a line just if its lines are not complete with it. -/
theorem continues_iff {line : CodeLine} (h : Pending group) :
    continues (openBrackets (group ++ [line])) (group ++ [line]).length line = true ↔ ¬ Complete (group ++ [line]) := by
  have hlength := h.length_lt
  simp only [continues, Complete, Bool.and_eq_true, Bool.or_eq_true, decide_eq_true_eq, beq_iff_eq,
    List.getLast?_concat, Option.bind_some, List.length_append, List.length_singleton, not_or, not_and, not_not]
  constructor
  · rintro ⟨hdepth | hcomma, hshort⟩
    · exact ⟨fun hclosed => absurd hdepth (Int.not_lt.2 hclosed), by omega⟩
    · exact ⟨fun _ => hcomma, by omega⟩
  · rintro ⟨hopen, hshort⟩
    refine ⟨?_, by omega⟩
    by_cases hclosed : openBrackets (group ++ [line]) ≤ 0
    · exact Or.inr (hopen hclosed)
    · exact Or.inl (Int.not_le.1 hclosed)

/-! ## Lines in groups -/

/-- The cut of some lines into the groups of statements: none is lost, a group ends with the first line that makes it
complete, and only the last may end because no line is left. -/
structure Grouping (held : List CodeLine) (groups : List (List CodeLine)) : Prop where
  flatten : groups.flatten = held
  ne_nil : ∀ group ∈ groups, group ≠ []
  pending : ∀ group ∈ groups, Pending group.dropLast
  complete : ∀ group ∈ groups.dropLast, Complete group

theorem Grouping.length_le (h : Grouping held groups) : ∀ group ∈ groups, group.length ≤ maxJoined := by
  intro group hgroup
  have hlength := (h.pending group hgroup).length_lt
  rw [List.length_dropLast] at hlength
  omega

theorem grouping_nil : Grouping [] [] := ⟨rfl, by simp, by simp, by simp⟩

/-- A grouping begins with a group and goes on with a grouping of the other lines. -/
theorem grouping_cons_iff :
    Grouping held (group :: groups) ↔
      group ++ groups.flatten = held ∧ group ≠ [] ∧ Pending group.dropLast ∧ (groups ≠ [] → Complete group) ∧
        Grouping groups.flatten groups := by
  constructor
  · rintro ⟨hflatten, hne, hpending, hcomplete⟩
    obtain ⟨hgroup, hgroups⟩ := List.forall_mem_cons.1 hne
    obtain ⟨hstart, hstarts⟩ := List.forall_mem_cons.1 hpending
    refine ⟨hflatten, hgroup, hstart, fun hmore => ?_, rfl, hgroups, hstarts, fun next hnext => ?_⟩
    · rw [List.dropLast_cons_of_ne_nil hmore] at hcomplete
      exact hcomplete group List.mem_cons_self
    · have hmore : groups ≠ [] := by
        rintro rfl
        exact absurd hnext List.not_mem_nil
      rw [List.dropLast_cons_of_ne_nil hmore] at hcomplete
      exact hcomplete next (List.mem_cons_of_mem group hnext)
  · rintro ⟨hflatten, hgroup, hstart, hcomplete, hrest⟩
    refine ⟨hflatten, List.forall_mem_cons.2 ⟨hgroup, hrest.ne_nil⟩, List.forall_mem_cons.2 ⟨hstart, hrest.pending⟩, ?_⟩
    cases groups with
    | nil => simp
    | cons next groups =>
        rw [List.dropLast_cons_of_ne_nil (by simp)]
        exact List.forall_mem_cons.2 ⟨hcomplete (by simp), hrest.complete⟩

theorem Grouping.eq_nil (h : Grouping [] groups) : groups = [] := by
  cases groups with
  | nil => rfl
  | cons group groups =>
      obtain ⟨hflatten, hne, -⟩ := grouping_cons_iff.1 h
      exact absurd (List.append_eq_nil_iff.1 hflatten).1 hne

/-- Of two groups that the same lines begin with, none is a part of the other. -/
theorem Grouping.head_eq_of_prefix {group' : List CodeLine} {groups' : List (List CodeLine)}
    (h : Grouping held (group :: groups)) (h' : Grouping held (group' :: groups')) (hstart : group <+: group') :
    group = group' := by
  obtain ⟨hflatten, hne, -, hcomplete, -⟩ := grouping_cons_iff.1 h
  obtain ⟨hflatten', -, hpending, -, -⟩ := grouping_cons_iff.1 h'
  by_contra hshorter
  obtain ⟨rest, rfl⟩ := hstart
  have hrest : rest ≠ [] := by
    rintro rfl
    exact hshorter (List.append_nil group).symm
  have hopen : ¬ Complete group := by
    refine hpending group ?_ hne
    rw [List.dropLast_append_of_ne_nil hrest]
    exact List.prefix_append _ _
  -- an incomplete group is the last, so no line is left for the longer one
  have hlast : groups = [] := by
    by_contra hmore
    exact hopen (hcomplete hmore)
  rw [hlast, List.flatten_nil, List.append_nil] at hflatten
  rw [← hflatten, List.append_assoc, List.append_right_eq_self] at hflatten'
  exact hrest (List.append_eq_nil_iff.1 hflatten').1

theorem Grouping.unique {groups' : List (List CodeLine)} (h : Grouping held groups) (h' : Grouping held groups') :
    groups' = groups := by
  induction groups generalizing held groups' with
  | nil =>
      obtain rfl := h.flatten
      exact h'.eq_nil
  | cons group groups ih =>
      cases groups' with
      | nil =>
          obtain rfl := h'.flatten
          exact h.eq_nil.symm
      | cons group' groups' =>
          have hsame : group' = group := by
            have hbegin : group <+: held := ⟨_, h.flatten⟩
            have hbegin' : group' <+: held := ⟨_, h'.flatten⟩
            rcases List.prefix_or_prefix_of_prefix hbegin hbegin' with hstart | hstart
            · exact (h.head_eq_of_prefix h' hstart).symm
            · exact h'.head_eq_of_prefix h hstart
          obtain ⟨hflatten, -, -, -, hrest⟩ := grouping_cons_iff.1 h
          obtain ⟨hflatten', -, -, -, hrest'⟩ := grouping_cons_iff.1 h'
          rw [hsame, ← hflatten, List.append_cancel_left_eq] at hflatten'
          rw [hflatten'] at hrest'
          rw [hsame, ih hrest hrest']

/-- The lines that are carried along and those that follow are grouped. -/
theorem grouping_groupsFrom (h : Pending group) (rest : List CodeLine) :
    Grouping (group ++ rest) (groupsFrom group (openBrackets group) rest) := by
  induction rest generalizing group with
  | nil =>
      rw [groupsFrom]
      split
      · next hnone =>
          rw [List.isEmpty_iff.1 hnone]
          exact grouping_nil
      · next hsome =>
          refine grouping_cons_iff.2 ⟨rfl, fun hnone => hsome (List.isEmpty_iff.2 hnone), ?_, by simp, grouping_nil⟩
          exact h.mono (List.dropLast_prefix group)
  | cons line rest ih =>
      have happend : group ++ line :: rest = group ++ [line] ++ rest := by simp
      rw [groupsFrom, ← openBrackets_concat, happend]
      split
      · next hgoes => exact ih (h.concat ((continues_iff h).1 hgoes))
      · next hends =>
          have hcomplete : Complete (group ++ [line]) := by
            by_contra hopen
            exact hends ((continues_iff h).2 hopen)
          have hrest : Grouping rest (groupsFrom [] 0 rest) := ih pending_nil
          have hflatten := hrest.flatten
          refine grouping_cons_iff.2 ⟨by rw [hflatten], by simp, ?_, fun _ => hcomplete, by rwa [hflatten]⟩
          rwa [List.dropLast_concat]

/-! ## Statements -/

/-- A statement is joined of lines: it has the number of the first, and their texts with single blanks between them. -/
structure Statement.Joins (s : Statement) (group : List CodeLine) : Prop where
  line : group.head?.map (·.number) = some s.line
  text : s.text = [' '].intercalate (group.map (·.text))

theorem joins_ofGroup (hne : group ≠ []) : (Statement.ofGroup group).Joins group := by
  obtain ⟨first, rest, rfl⟩ := List.exists_cons_of_ne_nil hne
  exact ⟨rfl, rfl⟩

/-- The statements of a source are joined of the groups of its lines, each of a bounded number of lines. -/
theorem statements_joined (source : String) :
    ∃ groups, Grouping (heldLines source) groups ∧ (∀ other, Grouping (heldLines source) other → other = groups) ∧
      (∀ group ∈ groups, group.length ≤ 64) ∧ List.Forall₂ Statement.Joins (statements source) groups := by
  have hgrouping : Grouping (heldLines source) (groupsFrom [] 0 (heldLines source)) :=
    grouping_groupsFrom pending_nil (heldLines source)
  refine ⟨_, hgrouping, fun _ => hgrouping.unique, hgrouping.length_le, ?_⟩
  rw [statements, codeLines_eq, List.forall₂_map_left_iff, List.forall₂_same]
  exact fun group hgroup => joins_ofGroup (hgrouping.ne_nil group hgroup)

/-- An open bracket carries a statement over a comment and a blank line. -/
example : statements "t.index [\"a\", # first\n\n  \"b\"]\nend" =
    [⟨1, "t.index [\"a\", \"b\"]".toList⟩, ⟨4, "end".toList⟩] := by decide

end CodeAtlas.Schema
