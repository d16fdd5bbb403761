import CodeAtlas.Proofs.Projection.Tracing
/-!
# What files require

A plain `require` names a file in `lib/` if that file is known when the statement is carried out, and otherwise the file
without `lib/`. The known files are those with a node: what was written before, and what was required before. So the
files that a file requires (`requireTargets`) are a function of its outline and of the files known before it, and its
unit leaves just these edges and just these new file nodes (`holds_requires_fileUnit`, `has_file_fileUnit`).
-/

namespace CodeAtlas.Projection

/-- The file in `lib/` that a plain `require` may name. -/
def libFile (required : String) : String := String.ofList ("lib/".toList ++ withSourceEnding required.toList)

/-- The file that a plain `require` names if the one in `lib/` is not known. -/
def plainFile (required : String) : String := String.ofList (withSourceEnding required.toList)

/-- The files that plain requires name, one after the other; a file is known once it is named. -/
def plainTargets : (String → Bool) → List String → List String
  | _, [] => []
  | known, required :: rest =>
    requiredFile known required :: plainTargets (fun f => known f || f = requiredFile known required) rest

/-- The files that a file requires, where `known` are the files known before it. -/
def requireTargets (known : String → Bool) (path : String) (o : Outline) : List String :=
  plainTargets (fun f => known f || f = path) o.requires ++ o.requireRelatives.map (resolveRelative path)

theorem requiredFile_eq (known : String → Bool) (required : String) :
    requiredFile known required = if known (libFile required) then libFile required else plainFile required := rfl

/-- Where each file in `lib/` is known from the start or never named, what is known from the start decides. -/
theorem plainTargets_eq_map {known : String → Bool} {requires : List String}
    (h : ∀ x ∈ requires, known (libFile x) = true ∨ ∀ y ∈ requires, plainFile y ≠ libFile x) :
    plainTargets known requires = requires.map (requiredFile known) := by
  induction requires generalizing known with
  | nil => rfl
  | cons first rest ih =>
      let known' : String → Bool := fun f => known f || f = requiredFile known first
      have hsame : ∀ x ∈ rest, known' (libFile x) = known (libFile x) := by
        intro x hx
        rcases h x (List.mem_cons_of_mem _ hx) with hknown | hunnamed
        · simp [known', hknown]
        · have hne : known (libFile x) = false → libFile x ≠ requiredFile known first := by
            intro hunknown heq
            rw [requiredFile_eq] at heq
            split at heq
            · next hfirst => rw [← heq, hunknown] at hfirst; exact absurd hfirst (by simp)
            · exact hunnamed first List.mem_cons_self heq.symm
          cases hknown : known (libFile x) with
          | true => simp [known', hknown]
          | false => simp [known', hknown, hne hknown]
      have hrest : ∀ x ∈ rest, known' (libFile x) = true ∨ ∀ y ∈ rest, plainFile y ≠ libFile x := by
        intro x hx
        rw [hsame x hx]
        exact (h x (List.mem_cons_of_mem _ hx)).imp_right fun hunnamed y hy => hunnamed y (List.mem_cons_of_mem _ hy)
      rw [plainTargets, List.map_cons, ih hrest]
      refine congrArg _ (List.map_congr_left ?_)
      intro x hx
      rw [requiredFile_eq, requiredFile_eq, hsame x hx]

/-- A file that is not known and not named stays unknown. -/
theorem not_mem_plainTargets {known : String → Bool} {f : String} (hf : known f = false) {requires : List String}
    (h : ∀ x ∈ requires, plainFile x ≠ f) : f ∉ plainTargets known requires := by
  induction requires generalizing known with
  | nil => simp [plainTargets]
  | cons first rest ih =>
      have hfirst : f ≠ requiredFile known first := by
        intro heq
        rw [requiredFile_eq] at heq
        split at heq
        · next hknown => rw [← heq, hf] at hknown; exact absurd hknown (by simp)
        · exact h first List.mem_cons_self heq.symm
      rw [plainTargets, List.mem_cons, not_or]
      exact ⟨hfirst, ih (by simp [hf, hfirst]) fun x hx => h x (List.mem_cons_of_mem _ hx)⟩

/-! ## The links -/

section

variable {path : String} {category : Category} {o : Outline} {built : Identity → Bool} {known : String → Bool}

theorem relates_append {first second : List Statement} {l : Link} :
    Relates (first ++ second) l ↔ Relates first l ∨ Relates second l := by
  simp only [Relates, List.mem_append]
  constructor
  · rintro ⟨locations, metadata, h | h⟩
    · exact Or.inl ⟨locations, metadata, h⟩
    · exact Or.inr ⟨locations, metadata, h⟩
  · rintro (⟨locations, metadata, h⟩ | ⟨locations, metadata, h⟩)
    · exact ⟨locations, metadata, Or.inl h⟩
    · exact ⟨locations, metadata, Or.inr h⟩

theorem kind_of_relates_declarations {ds : List Declaration} {l : Link}
    (h : Relates (declarationsStatements path built ds) l) : l.kind = .defines ∨ l.kind = .inherits := by
  induction ds generalizing built with
  | nil =>
      obtain ⟨_, _, h⟩ := h
      exact absurd h (by simp [declarationsStatements])
  | cons d rest ih =>
      rcases relates_append.1 h with ⟨locations, metadata, h⟩ | h
      · cases hi : nodeOf? d with
        | none => exact absurd h (by simp [declarationStatements, hi])
        | some i =>
            rw [declarationStatements_of_some hi] at h
            simp only [List.mem_cons, List.mem_append, List.mem_map, Statement.relate.injEq, reduceCtorEq,
              false_or] at h
            rcases h with ⟨rfl, _⟩ | ⟨owner, _, rfl, _⟩ | ⟨name, _, rfl, _⟩
            · exact Or.inl rfl
            · exact Or.inl rfl
            · exact Or.inr rfl
      · exact ih h

theorem kind_of_relates_structure {l : Link} (h : Relates (structureStatements path category o built) l) :
    l.kind ≠ .requires := by
  rcases relates_cons.1 h with ⟨_, _, h⟩ | h
  · exact absurd h (by simp)
  · rcases relates_append.1 h with h | ⟨_, _, h⟩
    · rcases kind_of_relates_declarations h with hk | hk <;> rw [hk] <;> simp
    · simp only [mixinStatements, List.mem_append, List.mem_map, Statement.relate.injEq] at h
      rcases h with ⟨name, _, rfl, _⟩ | ⟨name, _, rfl, _⟩ <;> simp

theorem relates_associations {l : Link}
    (h : Relates ((classIn? o.declarations).elim [] fun owner => associationStatements path owner o.associations) l) :
    l.kind ≠ .requires ∧ l.source.1 ≠ .file ∧ l.target.1 ≠ .file := by
  obtain ⟨_, _, h⟩ := h
  cases hc : classIn? o.declarations with
  | none => exact absurd h (by simp [hc])
  | some owner =>
      obtain ⟨d, _, hd⟩ := Option.bind_eq_some_iff.1 hc
      simp only [hc, Option.elim_some, associationStatements, List.mem_map, Statement.relate.injEq] at h
      obtain ⟨a, _, rfl, _⟩ := h
      refine ⟨?_, (nodeOf?_kind hd).2.2.2, by simp⟩
      cases a.word <;> simp [AssociationWord.edgeKind]

theorem relates_requireStatements {requires : List String} {l : Link} :
    Relates (requireStatements path known requires) l ↔
      ∃ q ∈ plainTargets known requires, l = ⟨.requires, (.file, path), (.file, q)⟩ := by
  induction requires generalizing known with
  | nil => simp [requireStatements, plainTargets, Relates]
  | cons first rest ih =>
      rw [requireStatements, relates_cons, ih, plainTargets, List.exists_mem_cons_iff]
      refine or_congr ?_ Iff.rfl
      constructor
      · rintro ⟨_, _, h⟩
        simp only [Statement.relate.injEq] at h
        exact h.1.symm
      · rintro rfl
        exact ⟨_, _, rfl⟩

theorem relates_relativeStatements {relatives : List String} {l : Link} :
    Relates (relativeStatements path relatives) l ↔
      ∃ q ∈ relatives.map (resolveRelative path), l = ⟨.requires, (.file, path), (.file, q)⟩ := by
  simp only [Relates, relativeStatements, List.mem_map, Statement.relate.injEq]
  constructor
  · rintro ⟨_, _, relative, hmem, rfl, _⟩
    exact ⟨_, ⟨relative, hmem, rfl⟩, rfl⟩
  · rintro ⟨_, ⟨relative, hmem, rfl⟩, rfl⟩
    exact ⟨_, _, relative, hmem, rfl, rfl, rfl⟩

/-- The `requires` links of a file. -/
theorem relates_requires_iff {l : Link} (hkind : l.kind = .requires) :
    Relates (fileStatements path category o built known) l ↔
      ∃ q ∈ requireTargets known path o, l = ⟨.requires, (.file, path), (.file, q)⟩ := by
  rw [fileStatements, relates_append, relates_append, relates_append, relates_requireStatements,
    relates_relativeStatements]
  simp only [requireTargets, List.mem_append, or_and_right, exists_or]
  constructor
  · rintro (h | h | h | h)
    · exact absurd hkind (kind_of_relates_structure h)
    · exact Or.inl h
    · exact Or.inr h
    · exact absurd hkind (relates_associations h).1
  · rintro (h | h)
    · exact Or.inr (Or.inl h)
    · exact Or.inr (Or.inr (Or.inl h))

/-- The files that a file speaks of are itself and those it requires. -/
theorem file_of_mentions {f : String} :
    (∃ s ∈ fileStatements path category o built known, s.Mentions (.file, f)) ↔
      f = path ∨ f ∈ requireTargets known path o := by
  constructor
  · rintro ⟨s, hs, hf⟩
    cases s with
    | declare n =>
        cases declare_mem_fileStatements.1 hs with
        | file => exact Or.inl (congrArg Prod.snd hf)
        | declaration d i mem node => exact absurd (congrArg Prod.fst hf).symm (nodeOf?_kind node).2.2.2
    | relate l locations metadata =>
        have hends : ∀ {targets : List String},
            (∃ q ∈ targets, l = ⟨.requires, (.file, path), (.file, q)⟩) → f = path ∨ f ∈ targets := by
          rintro targets ⟨q, hq, rfl⟩
          rcases hf with hf | hf
          · exact Or.inl (congrArg Prod.snd hf)
          · rw [show f = q from congrArg Prod.snd hf]
            exact Or.inr hq
        have hrel : Relates (fileStatements path category o built known) l := ⟨locations, metadata, hs⟩
        rw [fileStatements, relates_append, relates_append, relates_append, relates_requireStatements,
          relates_relativeStatements] at hrel
        rcases hrel with ⟨_, _, h⟩ | h | h | h
        · exact Or.inl (file_of_mentions_structure.1 ⟨_, h, hf⟩)
        · exact (hends h).imp_right fun hq => List.mem_append_left _ hq
        · exact (hends h).imp_right fun hq => List.mem_append_right _ hq
        · obtain ⟨_, hsource, htarget⟩ := relates_associations h
          rcases hf with hf | hf
          · exact absurd (congrArg Prod.fst hf).symm hsource
          · exact absurd (congrArg Prod.fst hf).symm htarget
  · rintro (rfl | hf)
    · exact ⟨_, List.mem_append_left _ List.mem_cons_self, rfl⟩
    · have hrel : Relates (fileStatements path category o built known) ⟨.requires, (.file, path), (.file, f)⟩ :=
        (relates_requires_iff rfl).2 ⟨f, hf, rfl⟩
      obtain ⟨_, _, h⟩ := hrel
      exact ⟨_, h, Or.inr rfl⟩

end

/-! ## The unit of a file -/

section

variable {path : String} {g : Graph} {cache : BuildCache} {previous : List Node} {statements : List Statement}

theorem has_or_mentions_of_has_unit (hw : (start path g cache).Sound) (hp : previous.Sublist g.nodes) {c : Catalog}
    {i : Identity} (h : (unit c path g cache previous statements).graph.Has i) :
    g.Has i ∨ ∃ s ∈ statements, s.Mentions i := by
  obtain ⟨id, m, hm, _, rfl⟩ := h
  cases emerges_unit hw hp hm with
  | declared n mem stored => exact Or.inr ⟨_, mem, by rw [stored, NewNode.stored_identity]; rfl⟩
  | kept mem _ _ => exact Or.inl ⟨_, Graph.names_of_mem mem⟩
  | referred _ _ _ l related atEnd =>
      obtain ⟨_, _, h⟩ := related
      exact Or.inr ⟨_, h, atEnd⟩
  | moved n mem same _ _ _ _ _ _ _ _ _ =>
      rw [← same]
      exact Or.inl ⟨_, Graph.names_of_mem mem⟩
  | demoted n mem _ _ _ _ eq =>
      rw [eq, Node.demoted_identity]
      exact Or.inl ⟨_, Graph.names_of_mem mem⟩

theorem has_unit_of_mentions (hw : (start path g cache).Sound) (hp : previous.Sublist g.nodes) (c : Catalog)
    {s : Statement} (hs : s ∈ statements) {i : Identity} (hi : s.Mentions i) :
    (unit c path g cache previous statements).graph.Has i := by
  cases s with
  | declare n => exact has_unit_of_declares hw hp c ⟨n, hs, hi.symm⟩
  | relate l locations metadata =>
      obtain ⟨e, _, ⟨_, hsource, htarget⟩, _⟩ :=
        (holds_unit hw hp c statements l path).2 (Or.inr ⟨rfl, locations, metadata, hs⟩)
      rcases hi with rfl | rfl
      · exact ⟨_, hsource⟩
      · exact ⟨_, htarget⟩

variable {I : String → Prop} {D : String → Identity → Prop} {category : Category} {o : Outline}
  {built : Identity → Bool} {known : String → Bool}

/-- The file nodes after the unit of a file that was not indexed before. -/
theorem has_file_fileUnit (hw : (start path g cache).Sound) (c : Catalog) (h : Traces I D g) (hnew : ¬ I path)
    (hknown : ∀ f, g.Has (.file, f) ↔ known f = true) (f : String) :
    (unit c path g cache (g.anchoredTo path) (fileStatements path category o built known)).graph.Has (.file, f) ↔
      known f = true ∨ f = path ∨ f ∈ requireTargets known path o := by
  have hp : (g.anchoredTo path).Sublist g.nodes := List.filter_sublist
  constructor
  · intro hf
    rcases has_or_mentions_of_has_unit hw hp hf with hf | hf
    · exact Or.inl ((hknown f).1 hf)
    · exact Or.inr (file_of_mentions.1 hf)
  · rintro (hf | hf)
    · obtain ⟨id, n, hn, rfl, hi⟩ := (hknown f).2 hf
      refine ⟨n.id, names_unit hw hp c _ ⟨n, hn, rfl, hi⟩ ?_⟩
      -- a file node that is anchored to the file would be its own node
      intro hown
      obtain ⟨a, ha, hpath⟩ := (mem_anchoredTo hw.graph hn path).1 hown
      obtain ⟨hkey, hI⟩ := h.files n hn (congrArg Prod.fst hi) a ha
      rw [← hkey, hpath] at hI
      exact hnew hI
    · obtain ⟨s, hs, hm⟩ := file_of_mentions.2 hf
      exact has_unit_of_mentions hw hp c hs hm

/-- The `requires` edges after the unit of a file that was not indexed before. -/
theorem holds_requires_fileUnit (hw : (start path g cache).Sound) (c : Catalog) (h : Traces I D g) (hnew : ¬ I path)
    {l : Link} (hkind : l.kind = .requires) (x : String) :
    (unit c path g cache (g.anchoredTo path) (fileStatements path category o built known)).graph.Holds l x ↔
      g.Holds l x ∨ (x = path ∧ ∃ q ∈ requireTargets known path o, l = ⟨.requires, (.file, path), (.file, q)⟩) := by
  have hp : (g.anchoredTo path).Sublist g.nodes := List.filter_sublist
  rw [holds_unit hw hp, relates_requires_iff hkind]
  refine or_congr ?_ Iff.rfl
  constructor
  · exact And.right
  · intro hx
    refine ⟨?_, hx⟩
    rintro rfl
    rcases h.holders l x hx with hI | ⟨_, known, hl⟩
    · exact hnew hI
    · cases hl <;> exact absurd hkind (by simp)

end

end CodeAtlas.Projection
