import CodeAtlas.Outline.Reader
import Mathlib.Data.List.Basic
/-!
# Frames and headings

Frames are pushed and popped without a trace in the outline but for the last lines of declarations
(`Reading.map_declarations_pop`). A line opens a class or module under a constant path, or a method under a name of
characters that methods may have (`heading_cases`).
-/

namespace CodeAtlas.Outline

open CodeAtlas.Text

namespace Reading

@[simp] theorem outline_push (r : Reading) (frame : Frame) : (r.push frame).outline = r.outline := rfl

@[simp] theorem stack_push (r : Reading) (frame : Frame) : (r.push frame).stack = frame :: r.stack := rfl

@[simp] theorem outline_pushBlock (r : Reading) : r.pushBlock.outline = r.outline := rfl

@[simp] theorem outline_pushBlocks (r : Reading) (n : Nat) : (r.pushBlocks n).outline = r.outline := by
  induction n generalizing r with
  | zero => rfl
  | succ n ih => rw [pushBlocks, ih, outline_pushBlock]

theorem map_modify_of_invariant {α β : Type*} {f : α → α} {g : α → β} (h : ∀ a, g (f a) = g a) (l : List α) (i : Nat) :
    (l.modify i f).map g = l.map g := by
  refine List.ext_getElem? fun j => ?_
  rw [List.getElem?_map, List.getElem?_map, List.getElem?_modify]
  cases l[j]? with
  | none => rfl
  | some a =>
      simp only [Option.map_eq_map, Option.map_some]
      split
      · rw [h]
      · rfl

/-- Popping changes nothing of the declarations but their last lines. -/
theorem map_declarations_pop {β : Type*} {g : Declaration → β} (h : ∀ d line, g { d with endLine := line } = g d)
    (r : Reading) (line : Nat) : (r.pop line).outline.declarations.map g = r.outline.declarations.map g := by
  unfold pop
  split
  · rfl
  · split
    · exact map_modify_of_invariant (fun d => h d line) _ _
    · rfl

/-- What popping leaves alone. -/
theorem pop_frame (r : Reading) (line : Nat) :
    (r.pop line).outline.associations = r.outline.associations ∧ (r.pop line).stack = r.stack.tail := by
  unfold pop
  split
  next h => exact ⟨rfl, by rw [h]; rfl⟩
  next frame rest h =>
    rw [h]
    split <;> exact ⟨rfl, rfl⟩

@[simp] theorem associations_pop (r : Reading) (line : Nat) :
    (r.pop line).outline.associations = r.outline.associations := (pop_frame r line).1

@[simp] theorem stack_pop (r : Reading) (line : Nat) : (r.pop line).stack = r.stack.tail := (pop_frame r line).2

@[simp] theorem associations_popMany (r : Reading) (line n : Nat) :
    (r.popMany line n).outline.associations = r.outline.associations := by
  induction n generalizing r with
  | zero => rfl
  | succ n ih => rw [popMany, ih, associations_pop]

end Reading

/-! ## Headings -/

/-- Characters that the name of a method may hold. -/
def isMethodChar (c : Char) : Bool := c.isAlpha || isWordChar c || isOperatorChar c || "_?[]".toList.contains c

theorem isMethodChar_of_mem_takeWhile {p : Char → Bool} (hp : ∀ c, p c = true → isMethodChar c = true)
    {cs : List Char} : ∀ c ∈ cs.takeWhile p, isMethodChar c = true :=
  fun c hc => hp c (List.all_eq_true.1 List.all_takeWhile c hc)

theorem isMethodChar_methodName {cs name tail : List Char} (h : methodName? cs = some (name, tail)) :
    ∀ c ∈ name, isMethodChar c = true := by
  have hword : ∀ c, isWordChar c = true → isMethodChar c = true := fun c hc => by simp [isMethodChar, hc]
  have hoperator : ∀ c, isOperatorChar c = true → isMethodChar c = true := fun c hc => by simp [isMethodChar, hc]
  unfold methodName? at h
  split at h
  · exact absurd h (by simp)
  · next first rest =>
      split at h
      · next hfirst =>
          have hstem : ∀ c ∈ first :: rest.takeWhile isWordChar, isMethodChar c = true := by
            refine List.forall_mem_cons.2 ⟨?_, isMethodChar_of_mem_takeWhile hword⟩
            rcases Bool.or_eq_true_iff.1 hfirst with hfirst | hfirst
            · simp [isMethodChar, hfirst]
            · rw [eq_of_beq hfirst]
              decide
          split at h <;> simp only [Option.some.injEq, Prod.mk.injEq] at h <;> rw [← h.1]
          · exact List.forall_mem_append.2 ⟨hstem, List.all_eq_true.1 (by decide)⟩
          · exact List.forall_mem_append.2 ⟨hstem, List.all_eq_true.1 (by decide)⟩
          · exact List.forall_mem_append.2 ⟨hstem, List.all_eq_true.1 (by decide)⟩
          · exact hstem
      · split at h
        · simp only [Option.some.injEq, Prod.mk.injEq] at h
          rw [← h.1]
          exact List.all_eq_true.1 (by decide)
        · simp only [Option.some.injEq, Prod.mk.injEq] at h
          rw [← h.1]
          exact List.all_eq_true.1 (by decide)
        · split at h
          · simp only [Option.some.injEq, Prod.mk.injEq] at h
            rw [← h.1]
            exact isMethodChar_of_mem_takeWhile hoperator
          · exact absurd h (by simp)

theorem isMethodChar_definee {cs name tail : List Char} {onSelf : Bool}
    (h : Heading.definee? cs = some (onSelf, name, tail)) : ∀ c ∈ name, isMethodChar c = true := by
  simp only [Heading.definee?] at h
  split at h
  · next hself =>
      simp only [Option.some.injEq, Prod.mk.injEq] at h
      obtain ⟨rest, -, hname⟩ := Option.bind_eq_some_iff.1 hself
      rw [h.2.1] at hname
      exact isMethodChar_methodName hname
  · obtain ⟨⟨name', tail'⟩, hname, heq⟩ := Option.map_eq_some_iff.1 h
    simp only [Prod.mk.injEq] at heq
    rw [← heq.2.1]
    exact isMethodChar_methodName hname

theorem bareMethod?_eq_some {visibility : Option Visibility} {signature : List Char} {h : Heading}
    (hm : Heading.bareMethod? visibility signature = some h) :
    ∃ onSelf name tail, h = .method visibility onSelf name tail signature ∧ ∀ c ∈ name, isMethodChar c = true := by
  unfold Heading.bareMethod? at hm
  obtain ⟨rest, -, hm⟩ := Option.bind_eq_some_iff.1 hm
  obtain ⟨⟨onSelf, name, tail⟩, hdefinee, hm⟩ := Option.bind_eq_some_iff.1 hm
  exact ⟨onSelf, name, tail, (Option.some.inj hm).symm, isMethodChar_definee hdefinee⟩

/-- A constant path holds no point. -/
theorem point_not_mem_constantPath {cs path following : List Char} (h : constantPath? cs = some (path, following)) :
    '.' ∉ path := by
  have hplain : ∀ {cs path following}, plainPath? cs = some (path, following) → '.' ∉ path := by
    intro cs path following hpath hpoint
    unfold plainPath? at hpath
    split at hpath
    · exact absurd hpath (by simp)
    · next first rest =>
        obtain ⟨hfirst, heq⟩ := Option.ite_none_right_eq_some.1 hpath
        rw [Option.some.injEq, Prod.mk.injEq] at heq
        rw [← heq.1] at hpoint
        rcases List.mem_cons.1 hpoint with rfl | hpoint
        · exact absurd hfirst (by decide)
        · exact absurd (List.all_eq_true.1 List.all_takeWhile '.' hpoint) (by decide)
  unfold constantPath? at h
  split at h
  · obtain ⟨⟨path', following'⟩, hpath, heq⟩ := Option.map_eq_some_iff.1 h
    simp only [Prod.mk.injEq] at heq
    rw [← heq.1]
    simp [hplain hpath]
  · exact hplain h

/-- The headings a line can be. -/
theorem heading_cases {raw code : List Char} {h : Heading} (hline : Heading.ofLine? raw code = some h) :
    h = .singleton ∨
      (∃ kind declared superclass, h = .container kind declared superclass ∧ kind.isContainer = true ∧
        '.' ∉ declared ∧ (kind ≠ .classDecl → superclass = none)) ∨
      ∃ v onSelf name tail signature, h = .method v onSelf name tail signature ∧ ∀ c ∈ name, isMethodChar c = true := by
  unfold Heading.ofLine? at hline
  split at hline
  · exact Or.inl (Option.some.inj hline).symm
  · rcases Option.or_eq_some_iff.1 hline with hclass | ⟨-, hline⟩
    · obtain ⟨rest, -, hclass⟩ := Option.bind_eq_some_iff.1 hclass
      obtain ⟨⟨path, following⟩, hpath, hclass⟩ := Option.bind_eq_some_iff.1 hclass
      exact Or.inr (Or.inl ⟨_, _, _, (Option.some.inj hclass).symm, rfl, point_not_mem_constantPath hpath,
        fun hkind => absurd rfl hkind⟩)
    · rcases Option.or_eq_some_iff.1 hline with hmodule | ⟨-, hmethod⟩
      · obtain ⟨rest, -, hmodule⟩ := Option.bind_eq_some_iff.1 hmodule
        obtain ⟨⟨path, following⟩, hpath, hmodule⟩ := Option.bind_eq_some_iff.1 hmodule
        exact Or.inr (Or.inl ⟨_, _, _, (Option.some.inj hmodule).symm, rfl, point_not_mem_constantPath hpath,
          fun _ => rfl⟩)
      · refine Or.inr (Or.inr ?_)
        unfold Heading.method? at hmethod
        split at hmethod
        · obtain ⟨onSelf, name, tail, heq, hname⟩ := bareMethod?_eq_some hmethod
          exact ⟨_, onSelf, name, tail, _, heq, hname⟩
        · obtain ⟨onSelf, name, tail, heq, hname⟩ := bareMethod?_eq_some hmethod
          exact ⟨_, onSelf, name, tail, _, heq, hname⟩

end CodeAtlas.Outline
