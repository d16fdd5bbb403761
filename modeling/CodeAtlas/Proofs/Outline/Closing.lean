import CodeAtlas.Proofs.Outline.Ranges
import CodeAtlas.Proofs.Outline.Recovery
/-!
# Closing blocks and declarations

Blocks are closed before the frame they stand in (`Reading.popMany_pushBlocks`). A declaration whose frame was closed keeps its
last line whatever follows (`Reading.upheld_closed`), and one whose frame is still open after a line ends in a later line
(`Reading.upheld_open`).
-/

namespace CodeAtlas.Outline

open CodeAtlas.Text

/-! ## Blocks and frames -/

namespace Reading

theorem pushBlocks_succ (r : Reading) (n : Nat) : r.pushBlocks (n + 1) = (r.pushBlocks n).pushBlock := by
  induction n generalizing r with
  | zero => rfl
  | succ n ih => rw [pushBlocks, ih, pushBlocks]

/-- Blocks are closed first, the innermost before the others. -/
theorem popMany_pushBlocks (r : Reading) (line opened closed : Nat) :
    (r.pushBlocks opened).popMany line closed =
      if closed ≤ opened then r.pushBlocks (opened - closed) else r.popMany line (closed - opened) := by
  induction closed generalizing opened with
  | zero => simp [popMany]
  | succ closed ih =>
      cases opened with
      | zero => simp [pushBlocks]
      | succ opened =>
          have hpop : (r.pushBlocks (opened + 1)).pop line = r.pushBlocks opened := by rw [pushBlocks_succ]; rfl
          rw [popMany, hpop, ih]
          simp only [Nat.add_le_add_iff_right, Nat.add_sub_add_right]

theorem pushBlocks_add_comm (r : Reading) (n : Nat) (ds : List Declaration) :
    (r.pushBlocks n).add ds = (r.add ds).pushBlocks n := by
  induction n generalizing r with
  | zero => rfl
  | succ n ih => rw [pushBlocks, ih]; rfl

@[simp] theorem container?_pushBlocks (r : Reading) (n : Nat) : (r.pushBlocks n).container? = r.container? := by
  induction n generalizing r with
  | zero => rfl
  | succ n ih => rw [pushBlocks, ih]; rfl

@[simp] theorem places_pushBlocks (r : Reading) (n : Nat) : places (r.pushBlocks n).stack = places r.stack := by
  induction n generalizing r with
  | zero => rfl
  | succ n ih => rw [pushBlocks, ih]; rfl

theorem length_stack_pushBlocks (r : Reading) (n : Nat) : (r.pushBlocks n).stack.length = r.stack.length + n := by
  induction n generalizing r with
  | zero => rfl
  | succ n ih =>
      rw [pushBlocks, ih, pushBlock, stack_push, List.length_cons, Nat.add_right_comm, Nat.add_assoc]

/-! ## What is closed and what is open -/

theorem places_cons_some {frame : Frame} {place : Nat} (h : frame.declaration = some place) (stack : List Frame) :
    places (frame :: stack) = place :: places stack :=
  List.filterMap_cons_some h

/-- A heading adds one declaration at most, and opens none but this. -/
theorem heading_adds (r : Reading) (raw : List Char) (line : Nat) (documentation : Option String) (h : Heading) :
    ∃ added opened, (r.heading raw line documentation h).outline.declarations = r.outline.declarations ++ added ∧
      places (r.heading raw line documentation h).stack = opened ++ places r.stack ∧
      ∀ i ∈ opened, i = r.outline.declarations.length := by
  cases h with
  | singleton => exact ⟨[], [], (List.append_nil _).symm, rfl, List.forall_mem_nil _⟩
  | container kind declared superclass =>
      rw [heading]
      dsimp only
      rw [lastPlace_declare]
      exact ⟨[_], [_], rfl, places_cons_some rfl _, by simp⟩
  | method stated onSelf name tail signature =>
      rw [heading]
      split
      · exact ⟨[_], [], rfl, rfl, List.forall_mem_nil _⟩
      · rw [lastPlace_declare]
        exact ⟨[_], [_], rfl, places_cons_some rfl _, by simp⟩

/-- Popping ends the declaration of the innermost frame, if it has one. -/
theorem getElem?_declarations_pop (r : Reading) (line i : Nat) :
    ((r.pop line).outline.declarations[i]? = r.outline.declarations[i]? ∧
        (i ∈ places r.stack → i ∈ places (r.pop line).stack)) ∨
      (i ∈ places r.stack ∧
        (r.pop line).outline.declarations[i]? = (r.outline.declarations[i]?).map fun d => { d with endLine := line }) := by
  unfold pop
  split
  · exact Or.inl ⟨rfl, id⟩
  next frame rest hstack =>
    rw [hstack]
    split
    next place hplace =>
      rw [places_cons_some hplace]
      rcases eq_or_ne place i with rfl | hne
      · exact Or.inr ⟨List.mem_cons_self, by simp [endDeclaration]⟩
      · refine Or.inl ⟨?_, fun hmem => (List.mem_cons.1 hmem).resolve_left hne.symm⟩
        simp [endDeclaration, hne]
    next hplace =>
      rw [places, List.filterMap_cons_none hplace]
      exact Or.inl ⟨rfl, id⟩

theorem places_pop_subset (r : Reading) (line : Nat) : places (r.pop line).stack ⊆ places r.stack := by
  rw [stack_pop]
  exact List.filterMap_subset _ (List.tail_sublist _).subset

/-- A declaration that is closed keeps its last line. -/
theorem upheld_closed (i last : Nat) : Upheld 0 fun _ r =>
    i ∉ places r.stack ∧ (r.outline.declarations[i]?).map (·.endLine) = some last where
  later _ h := h
  congr h hds hstack := by rwa [places_congr hstack, hds]
  pop {r n} _ h := by
    refine ⟨fun hmem => h.1 (places_pop_subset r n hmem), ?_⟩
    rcases getElem?_declarations_pop r n i with ⟨hsame, -⟩ | ⟨hopen, -⟩
    · rw [hsame]
      exact h.2
    · exact absurd hopen h.1
  pushBlock _ h := h
  heading {r raw code heading n} documentation _ _ h := by
    obtain ⟨added, opened, hds, hplaces, hopened⟩ := r.heading_adds raw (n + 1) documentation heading
    obtain ⟨d, hd, -⟩ := Option.map_eq_some_iff.1 h.2
    have hbound := (List.getElem?_eq_some_iff.1 hd).1
    rw [hds, hplaces, List.getElem?_append_left hbound, List.mem_append, not_or]
    exact ⟨⟨fun hmem => absurd (hopened i hmem) hbound.ne, h.1⟩, h.2⟩
  declareLine kind name raw documentation v _ _ h := by
    obtain ⟨d, hd, -⟩ := Option.map_eq_some_iff.1 h.2
    refine ⟨h.1, ?_⟩
    rw [declareLine, declare]
    dsimp only
    rw [List.getElem?_append_left (List.getElem?_eq_some_iff.1 hd).1]
    exact h.2

/-- A declaration that is open after a line ends in a later one. -/
theorem upheld_open (i start : Nat) : Upheld start fun _ r =>
    ∃ d, r.outline.declarations[i]? = some d ∧ (i ∈ places r.stack ∨ start < d.endLine) where
  later _ h := h
  congr h hds hstack := by rwa [places_congr hstack, hds]
  pop {r n} hn h := by
    obtain ⟨d, hd, hlast⟩ := h
    rcases getElem?_declarations_pop r n i with ⟨hsame, hopen⟩ | ⟨-, hended⟩
    · exact ⟨d, hsame.trans hd, hlast.imp_left hopen⟩
    · rw [hd, Option.map_some] at hended
      exact ⟨_, hended, Or.inr hn⟩
  pushBlock _ h := h
  heading {r raw code heading n} documentation _ _ h := by
    obtain ⟨d, hd, hlast⟩ := h
    obtain ⟨added, opened, hds, hplaces, -⟩ := r.heading_adds raw (n + 1) documentation heading
    rw [hds, hplaces, List.getElem?_append_left (List.getElem?_eq_some_iff.1 hd).1]
    exact ⟨d, hd, hlast.imp_left (List.mem_append_right _)⟩
  declareLine kind name raw documentation v _ _ h := by
    obtain ⟨d, hd, hlast⟩ := h
    refine ⟨d, ?_, hlast⟩
    rw [declareLine, declare]
    dsimp only
    rw [List.getElem?_append_left (List.getElem?_eq_some_iff.1 hd).1, hd]

/-- What holds after some lines holds at the end of the text, whatever lines follow. -/
theorem Upheld.finish_reads {start : Nat} {I : Nat → Reading → Prop} (h : Upheld start I) {u : List (List Char)}
    {before : Nat} {r r' : Reading} (hread : Reads u before r r') (hn : start ≤ before + u.length)
    (hr' : I (before + u.length) r') (rest : List (List Char)) (hrest : start < before + u.length + rest.length) :
    ∃ q : Reading, I (before + u.length + rest.length) q ∧ q.stack = [] ∧
      ((u ++ rest).foldl Progress.step (calm r before)).finish.declarations = q.outline.declarations := by
  rw [List.foldl_append, show u.foldl Progress.step (calm r before) = calm r' (before + u.length) from hread]
  have hlines : (rest.foldl Progress.step (calm r' (before + u.length))).lines = before + u.length + rest.length :=
    Progress.lines_foldl _ rest
  rw [← hlines] at hrest ⊢
  exact h.finish hrest (h.foldl (p := calm r' (before + u.length)) hn hr' rest)

end Reading

theorem Reads.finish {texts : List (List Char)} {before : Nat} {r r' : Reading} (h : Reads texts before r r') :
    (texts.foldl Progress.step (calm r before)).finish.declarations =
      (r'.popMany (before + texts.length) r'.stack.length).outline.declarations := by
  rw [show texts.foldl Progress.step (calm r before) = calm r' (before + texts.length) from h]
  rfl

end CodeAtlas.Outline
