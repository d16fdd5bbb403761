import CodeAtlas.Proofs.Outline.Lines
/-!
# Associations that lines add

As long as no method is open, a line that opens a class and a line that ends one leave the associations as they are, and
a line that declares an association adds it (`Progress.Collected`).
-/

namespace CodeAtlas.Outline

open CodeAtlas.Text

theorem mem_of_mem_blankFrom {s : Scan} {c : Char} {cs : List Char} (h : c ∈ blankFrom s cs) : c ∈ cs := by
  induction cs generalizing s with
  | nil => exact absurd h List.not_mem_nil
  | cons d cs ih =>
      rw [blankFrom] at h
      split at h
      · exact List.mem_cons_of_mem _ (ih h)
      · rcases List.mem_cons.1 h with rfl | h
        · exact List.mem_cons_self
        · exact List.mem_cons_of_mem _ (ih h)

theorem mem_of_mem_codePart {s : Scan} {c : Char} {cs : List Char} (h : c ∈ s.codePart cs) : c ∈ cs := by
  induction cs generalizing s with
  | nil => exact absurd h List.not_mem_nil
  | cons d cs ih =>
      rw [Scan.codePart] at h
      split at h
      · exact absurd h List.not_mem_nil
      · rcases List.mem_cons.1 h with rfl | h
        · exact List.mem_cons_self
        · exact List.mem_cons_of_mem _ (ih h)

theorem mem_of_mem_trimEnd {c : Char} {cs : List Char} (h : c ∈ trimEnd cs) : c ∈ cs := by
  rw [trimEnd, dropEndWhile, List.mem_reverse] at h
  exact List.mem_reverse.1 ((List.dropWhile_sublist _).subset h)

theorem visibility?_of_head {code : List Char} (h : ∀ c ∈ code.head?, c ≠ 'p') : Body.visibility? code = none := by
  have hne : ∀ v ∈ Visibility.all, ¬(v.name == String.ofList code) = true := by
    intro v hv heq
    have hcode : code = v.name.toList := by rw [eq_of_beq heq, String.toList_ofList]
    refine h 'p' ?_ rfl
    rw [hcode]
    cases v <;> rfl
  rw [Body.visibility?, Visibility.ofName?, List.find?_eq_none.2 hne, Option.map_none]

namespace Reading

/-- What was read outside of methods: the associations are these. -/
structure Collected (r : Reading) (found : List DeclaredAssociation) : Prop where
  associations : r.outline.associations = found
  outside : r.inMethod = false

variable {r : Reading} {found : List DeclaredAssociation} {raw : List Char} {line : Nat} {documentation : Option String}

theorem Collected.push (h : r.Collected found) {frame : Frame} (hframe : frame.kind ≠ .method) :
    (r.push frame).Collected found :=
  ⟨h.associations, by simpa [inMethod, hframe] using h.outside⟩

theorem Collected.pushBlocks (h : r.Collected found) (n : Nat) : (r.pushBlocks n).Collected found := by
  induction n generalizing r with
  | zero => exact h
  | succ n ih => exact ih (h.push (by simp))

theorem Collected.pop (h : r.Collected found) : (r.pop line).Collected found := by
  refine ⟨by rw [associations_pop, h.associations], ?_⟩
  have houtside := h.outside
  simp only [inMethod, stack_pop, List.any_eq_false] at houtside ⊢
  exact fun frame hframe => houtside frame (List.mem_of_mem_tail hframe)

theorem Collected.popMany (h : r.Collected found) (n : Nat) : (r.popMany line n).Collected found := by
  induction n generalizing r with
  | zero => exact h
  | succ n ih => exact ih h.pop

/-- The blocks that a line opens and closes do not matter, only what it declares. -/
theorem Collected.codeLine {found' : List DeclaredAssociation} (h : r.Collected found)
    (hcontent : ∀ r : Reading, r.Collected found → (r.content raw (blankStrings raw) line documentation).Collected found') :
    (r.codeLine raw line documentation).Collected found' := by
  unfold Reading.codeLine
  dsimp only
  refine Collected.popMany ?_ _
  -- a line may end a frame before it is read, and opens and ends blocks after that
  have hpopped : ∀ b : Bool, (if b then r.pop line else r).Collected found := by
    intro b
    split
    · exact h.pop
    · exact h
  split
  · exact hcontent _ (hpopped _)
  · exact (hcontent _ (hpopped _)).pushBlocks _

theorem Collected.content_class (h : r.Collected found) {rest : List Char} (hrest : '<' ∉ rest) :
    (r.content ("class".toList ++ rest) (blankStrings ("class".toList ++ rest)) line documentation).Collected found := by
  have hcode : blankStrings ("class".toList ++ rest) = "class".toList ++ blankFrom {} rest := rfl
  have hsingleton : Heading.isSingleton ("class".toList ++ blankFrom {} rest) = false := by
    have hless : after? ['<', '<'] (trimStart (blankFrom {} rest)) = none :=
      after?_of_not_mem fun hmem => hrest (mem_of_mem_blankFrom ((List.dropWhile_sublist _).subset hmem))
    rw [Heading.isSingleton, after?_append]
    dsimp only
    rw [hless]
  have hmodule : Heading.module? ("class".toList ++ rest) = none := rfl
  have hmethod : Heading.method? ("class".toList ++ rest) = none := rfl
  have hbody : Body.ofLine? ("class".toList ++ rest) ("class".toList ++ blankFrom {} rest) = none := by
    rw [Body.ofLine?, visibility?_of_head (by simp)]
    rfl
  rw [content, hcode, Heading.ofLine?, hsingleton, hmodule, hmethod, hbody, h.outside]
  cases hclass : Heading.class? ("class".toList ++ rest) with
  | none =>
      change (if opensBlock _ then r.pushBlock else r).Collected found
      split
      · exact h.pushBlocks 1
      · exact h
  | some heading =>
      obtain ⟨following, -, hclass⟩ := Option.bind_eq_some_iff.1 hclass
      obtain ⟨⟨path, tail⟩, -, hclass⟩ := Option.bind_eq_some_iff.1 hclass
      rw [← Option.some.inj hclass]
      exact Collected.push (r := r.declare _ _) ⟨h.associations, h.outside⟩ (by simp)

/-- The declaration of an association is read as its arguments are. -/
theorem Collected.content_association (h : r.Collected found) (word : AssociationWord) (rest : List Char) :
    r.content (word.name.toList ++ ' ' :: rest) (blankStrings (word.name.toList ++ ' ' :: rest)) line documentation =
      r.associate word (' ' :: rest) (word.name.toList ++ ' ' :: rest) line documentation := by
  have hheading : Heading.ofLine? (word.name.toList ++ ' ' :: rest) (blankStrings (word.name.toList ++ ' ' :: rest)) = none := by
    cases word <;> rfl
  have hhead : ∀ c ∈ (blankStrings (word.name.toList ++ ' ' :: rest)).head?, c ≠ 'p' := by
    cases word <;> (rintro c ⟨⟩; decide)
  have hassociation : Body.association? (word.name.toList ++ ' ' :: rest) = some (.association word (' ' :: rest)) := by
    cases word <;> rfl
  rw [content, hheading, h.outside, Body.ofLine?, visibility?_of_head hhead, hassociation]
  rfl

end Reading

namespace Progress

/-- Between two lines outside of methods, comment blocks and text blocks: the associations are these. -/
structure Collected (p : Progress) (found : List DeclaredAssociation) : Prop where
  reading : p.reading.Collected found
  inComment : p.inComment = false
  heredoc : p.heredoc = none

variable {p : Progress} {found : List DeclaredAssociation}

theorem Collected.step_class (h : p.Collected found) {rest : List Char} (hrest : '<' ∉ rest) :
    (p.step ("class".toList ++ rest)).Collected found := by
  have htrim : trim ("class".toList ++ rest) = "class".toList ++ trimEnd rest :=
    trimEnd_append (u := "clas".toList) (by decide : isBlank 's' = false) rest
  have hraw : trimEnd (Scan.withoutComment ("class".toList ++ trimEnd rest)) =
      "class".toList ++ trimEnd (Scan.codePart {} (trimEnd rest)) :=
    trimEnd_append (u := "clas".toList) (by decide : isBlank 's' = false) _
  have hless : '<' ∉ trimEnd (Scan.codePart {} (trimEnd rest)) := fun hmem =>
    hrest (mem_of_mem_trimEnd (mem_of_mem_codePart (mem_of_mem_trimEnd hmem)))
  have hstep : p.step ("class".toList ++ rest) =
      { p with
        reading := p.reading.codeLine ("class".toList ++ trimEnd (Scan.codePart {} (trimEnd rest))) (p.lines + 1) p.documentation
        comments := []
        heredoc := heredoc? ("class".toList ++ trimEnd (Scan.codePart {} (trimEnd rest)))
        lines := p.lines + 1 } := by
    rw [step_of_head h.inComment h.heredoc (by simp), plainLine, htrim]
    split
    · next heq => exact absurd (List.cons.inj heq).1 (by decide)
    · rw [hraw]
      rfl
  rw [hstep]
  exact ⟨h.reading.codeLine fun r hr => hr.content_class hless, h.inComment, heredoc?_of_not_mem (by simpa using hless)⟩

theorem Collected.step_end (h : p.Collected found) : (p.step "end".toList).Collected found := by
  have hend : CodeText "end".toList := ⟨⟨'e', ['n', 'd'], rfl, by decide, by decide⟩, by rintro c ⟨⟩; decide, by decide⟩
  have hstep := step_code h.inComment h.heredoc (List.forall_mem_nil _) hend
  rw [List.nil_append, Reading.codeLine_end] at hstep
  rw [hstep]
  exact ⟨h.reading.pop, h.inComment, heredoc?_of_not_mem (by decide)⟩

end Progress

end CodeAtlas.Outline
