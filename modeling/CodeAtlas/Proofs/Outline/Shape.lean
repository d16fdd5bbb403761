import CodeAtlas.Proofs.Outline.Acts
import CodeAtlas.Proofs.Text.Parts
/-!
# The shape of what is read

The declarations of a text are well formed: classes only have a superclass, the names of classes and modules hold no
point, and those of methods hold neither point nor hash (`formed_ofSource`). All acts of the reader keep this.
-/

namespace CodeAtlas.Outline

open CodeAtlas.Text

/-- A declaration as it can be read from a text. -/
structure Formed (d : Declaration) : Prop where
  superclass : d.kind ≠ .classDecl → d.superclass = none
  enclosing : ∀ owner, d.enclosing = some owner → '.' ∉ owner.toList
  name : d.kind = .method → ∀ c ∈ d.name.toList, isMethodChar c = true

namespace Reading

/-- All declarations are well formed, and the names of open classes and modules hold no point. -/
structure AllFormed (r : Reading) : Prop where
  declarations : ∀ d ∈ r.outline.declarations, Formed d
  frames : ∀ name, .container name ∈ r.stack.map Frame.kind → '.' ∉ name.toList

variable {r : Reading} {d : Declaration}

theorem AllFormed.container (h : r.AllFormed) {name : String} (hname : r.container? = some name) :
    '.' ∉ name.toList := by
  obtain ⟨frame, hframe, hkind⟩ := List.exists_of_findSome?_eq_some hname
  split at hkind
  next heq =>
    obtain rfl := Option.some.inj hkind
    exact h.frames _ (heq ▸ List.mem_map_of_mem hframe)
  next => exact absurd hkind (by simp)

theorem AllFormed.declare (h : r.AllFormed) (hd : Formed d) (documentation : Option String) :
    (r.declare d documentation).AllFormed := by
  refine ⟨?_, h.frames⟩
  intro e he
  rcases List.mem_append.1 he with he | he
  · exact h.declarations e he
  · rw [List.mem_singleton.1 he]
    refine ⟨hd.superclass, ?_, hd.name⟩
    intro owner howner
    rcases Option.or_eq_some_iff.1 howner with howner | ⟨-, howner⟩
    · exact hd.enclosing owner howner
    · exact h.container howner

theorem AllFormed.push (h : r.AllFormed) {frame : Frame}
    (hframe : ∀ name, frame.kind = .container name → '.' ∉ name.toList) : (r.push frame).AllFormed := by
  refine ⟨h.declarations, ?_⟩
  intro name hname
  rw [stack_push, List.map_cons] at hname
  rcases List.mem_cons.1 hname with hname | hname
  · exact hframe name hname.symm
  · exact h.frames name hname

/-- The full name of a class or module holds no point if the name at hand holds none. -/
theorem AllFormed.qualify (h : r.AllFormed) {declared : List Char} (hdeclared : '.' ∉ declared) :
    '.' ∉ (r.qualify declared).1.toList ∧ ∀ owner, (r.qualify declared).2 = some owner → '.' ∉ owner.toList := by
  unfold Reading.qualify
  split
  next rest hafter =>
    rw [after?_eq_some_iff] at hafter
    rw [hafter, List.mem_append] at hdeclared
    exact ⟨by simpa using fun hrest => hdeclared (Or.inr hrest), by simp⟩
  next =>
    split
    next outer houter =>
      have hname := h.container houter
      refine ⟨by simp [hname, hdeclared], ?_⟩
      rintro owner ⟨⟩
      exact hname
    next => exact ⟨by simpa using hdeclared, by simp⟩

theorem AllFormed.heading (h : r.AllFormed) {raw code : List Char} {heading : Heading} (line : Nat)
    (documentation : Option String) (hline : Heading.ofLine? raw code = some heading) :
    (r.heading raw line documentation heading).AllFormed := by
  rcases heading_cases hline with rfl | ⟨kind, declared, superclass, rfl, hkind, hdeclared, hsuperclass⟩ |
    ⟨stated, onSelf, name, tail, signature, rfl, hname⟩
  · exact h.push (by simp)
  · obtain ⟨hfull, houter⟩ := h.qualify hdeclared
    refine AllFormed.push (h.declare ⟨?_, houter, ?_⟩ documentation) ?_
    · intro hclass
      rw [hsuperclass hclass]
      rfl
    · intro hmethod
      rw [show kind = .method from hmethod] at hkind
      exact absurd hkind (by decide)
    · rintro _ ⟨⟩
      exact hfull
  · have hmethod : ∀ v m, Formed {
        name := String.ofList name, kind := .method, startLine := line, endLine := line, visibility := v
        classMethod := m, signature := some (String.ofList signature) } :=
      fun _ _ => ⟨fun _ => rfl, by simp, fun _ => by simpa using hname⟩
    rw [Reading.heading]
    split
    · exact h.declare (hmethod _ _) documentation
    · exact AllFormed.push (h.declare (hmethod _ _) documentation) (by simp)

theorem AllFormed.pop (h : r.AllFormed) (line : Nat) : (r.pop line).AllFormed := by
  refine ⟨?_, ?_⟩
  · intro d hd
    have hkept : (r.pop line).outline.declarations.map (fun d => (d.kind, d.superclass, d.enclosing, d.name)) =
        r.outline.declarations.map fun d => (d.kind, d.superclass, d.enclosing, d.name) :=
      map_declarations_pop (fun _ _ => rfl) r line
    obtain ⟨e, he, heq⟩ := List.mem_map.1 (hkept ▸ List.mem_map_of_mem hd)
    simp only [Prod.mk.injEq] at heq
    have hformed := h.declarations e he
    refine ⟨?_, ?_, ?_⟩
    · rw [← heq.1, ← heq.2.1]
      exact hformed.superclass
    · rw [← heq.2.2.1]
      exact hformed.enclosing
    · rw [← heq.1, ← heq.2.2.2]
      exact hformed.name
  · intro name hname
    rw [stack_pop, List.map_tail] at hname
    exact h.frames name (List.mem_of_mem_tail hname)

theorem upheld_allFormed : Upheld 0 fun _ r => r.AllFormed where
  later _ h := h
  congr h hds hframes := by
    refine ⟨by rw [hds]; exact h.declarations, ?_⟩
    have hkinds := congrArg (List.map Prod.fst) hframes
    rw [List.map_map, List.map_map] at hkinds
    intro name hname
    exact h.frames name (hkinds ▸ hname)
  pop _ h := h.pop _
  pushBlock _ h := h.push (by simp)
  heading documentation _ hline h := h.heading _ documentation hline
  declareLine kind name raw documentation v _ hkind h := by
    refine h.declare ⟨fun _ => rfl, by simp, ?_⟩ documentation
    intro hmethod
    rw [show kind = .method from hmethod] at hkind
    exact absurd hkind (by decide)

end Reading

/-- Whatever is read from a text is well formed. -/
theorem formed_ofSource {source : String} {d : Declaration} (hd : d ∈ (ofSource source).declarations) : Formed d := by
  obtain ⟨r, hr, -, heq⟩ := Reading.upheld_allFormed.ofSource ⟨by simp, by simp⟩ source
  exact hr.declarations d (heq ▸ hd)

/-- The name of a method that was read holds no point. -/
theorem bare_of_mem_ofSource {source : String} {d : Declaration} (hd : d ∈ (ofSource source).declarations)
    (hmethod : d.kind = .method) : '.' ∉ d.name.toList := by
  intro hpoint
  exact absurd ((formed_ofSource hd).name hmethod _ hpoint) (by decide)

end CodeAtlas.Outline
