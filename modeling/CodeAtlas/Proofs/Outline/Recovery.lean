import CodeAtlas.Proofs.Outline.Wording
/-!
# Conventional outlines are recovered

Every construct of a conventional outline leaves the stack as it was before it, but for the visibility in force, and adds
its declarations to the outline (`Reads`). So the reader finds exactly what such an outline declares
(`declarations_ofSource`).
-/

namespace CodeAtlas.Outline

open CodeAtlas.Text

/-! ## Readings between lines -/

/-- What has been read after a number of lines, with nothing open that goes over several lines of text. -/
def calm (r : Reading) (passed : Nat) : Progress := { reading := r, lines := passed }

/-- From one reading to another by lines that follow `before` others. -/
def Reads (texts : List (List Char)) (before : Nat) (r r' : Reading) : Prop :=
  texts.foldl Progress.step (calm r before) = calm r' (before + texts.length)

section

variable {u v : List (List Char)} {before : Nat} {r r' r'' : Reading}

theorem reads_nil (before : Nat) (r : Reading) : Reads [] before r r := rfl

theorem Reads.append (hu : Reads u before r r') (hv : Reads v (before + u.length) r' r'') : Reads (u ++ v) before r r'' := by
  unfold Reads at hu hv ⊢
  rw [List.foldl_append, hu, hv, List.length_append, Nat.add_assoc]

theorem isBlank_of_margin {text : List Char} (h : text.all isMarginChar = true) : ∀ c ∈ text, isBlank c = true :=
  fun c hc => (isMarginChar_iff.1 (List.all_eq_true.1 h c hc)).1

theorem reads_blank {texts : List (List Char)} (h : texts.all (·.all isMarginChar) = true) (before : Nat) (r : Reading) :
    Reads texts before r r := by
  induction texts generalizing before with
  | nil => exact reads_nil before r
  | cons text texts ih =>
      rw [List.all_cons, Bool.and_eq_true] at h
      have hstep : (calm r before).step text = calm r (before + 1) := Progress.step_blank rfl rfl (isBlank_of_margin h.1)
      unfold Reads at ih ⊢
      rw [List.foldl_cons, hstep, ih h.2, List.length_cons, Nat.add_assoc, Nat.add_comm 1]

theorem reads_line {indent raw : List Char} (hindent : ∀ c ∈ indent, isBlank c = true) (hraw : CodeText raw)
    (hheredoc : heredoc? raw = none) (before : Nat) (r : Reading) :
    Reads [indent ++ raw] before r (r.codeLine raw (before + 1) none) := by
  have hcalm : (calm r before).inComment = false ∧ (calm r before).heredoc = none := ⟨rfl, rfl⟩
  unfold Reads
  rw [List.foldl_cons, List.foldl_nil, Progress.step_code hcalm.1 hcalm.2 hindent hraw, hheredoc]
  rfl

/-- A line with its margin is read as its text is. -/
theorem Margin.reads (m : Margin) {raw : List Char} (hraw : LineText raw) (before : Nat) (r : Reading) :
    Reads (m.lines raw) before r (r.codeLine raw (before + m.height) none) :=
  (reads_blank m.blank_wf before r).append
    (reads_line (isBlank_of_margin m.indent_wf) hraw.codeText hraw.heredoc (before + m.blank.length) r)

end

namespace Reading

/-- More declarations. -/
def add (r : Reading) (ds : List Declaration) : Reading :=
  { r with outline := { r.outline with declarations := r.outline.declarations ++ ds } }

@[simp] theorem add_nil (r : Reading) : r.add [] = r := by simp [add]

theorem add_add (r : Reading) (ds ds' : List Declaration) : (r.add ds).add ds' = r.add (ds ++ ds') := by
  simp [add, List.append_assoc]

theorem declare_eq (r : Reading) (d : Declaration) (documentation : Option String) :
    r.declare d documentation =
      r.add [{ d with enclosing := d.enclosing.or r.container?, documentation := documentation }] := rfl

theorem modify_append {α : Type*} (l : List α) (a : α) (l' : List α) (f : α → α) :
    (l ++ a :: l').modify l.length f = l ++ f a :: l' := by
  induction l with
  | nil => rfl
  | cons b l ih => simp [ih]

/-- The frame of a declaration is popped: the declaration ends there. -/
theorem pop_push_add (r : Reading) (d : Declaration) (ds : List Declaration) (kind : FrameKind) (v : Visibility) (line : Nat) :
    ((r.add (d :: ds)).push ⟨kind, some r.outline.declarations.length, v⟩).pop line =
      r.add ({ d with endLine := line } :: ds) := by
  simp only [pop, push, endDeclaration, add, modify_append]

theorem pop_push (r : Reading) (kind : FrameKind) (v : Visibility) (line : Nat) : (r.push ⟨kind, none, v⟩).pop line = r := rfl

theorem lastPlace_add (r : Reading) (d : Declaration) : (r.add [d]).lastPlace = r.outline.declarations.length := by
  simp [lastPlace, add]

end Reading

/-! ## Methods -/

/-- Blocks in a method leave no trace. -/
theorem Blocks.reads (b : Blocks) {r : Reading} (hr : r.inMethod = true) (before : Nat) : Reads b.lines before r r := by
  induction b generalizing r before with
  | nil => exact reads_nil before r
  | block opening head inside foot rest ihInside ihRest =>
      have hopen := head.reads opening.lineText before r
      rw [opening.codeLine_text hr] at hopen
      have hblock : r.pushBlock.inMethod = true := by simpa [Reading.inMethod, Reading.pushBlock] using hr
      have hend := foot.reads lineText_endText (before + (head.lines opening.text ++ inside.lines).length) r.pushBlock
      rw [endText, Reading.codeLine_end, Reading.pushBlock, Reading.pop_push] at hend
      exact ((hopen.append (ihInside hblock _)).append hend).append (ihRest hr _)

/-- A method is declared in the module or class and with the visibility that it is read in. -/
theorem Method.reads (m : Method) {r : Reading} {owner : String} (howner : r.container? = some owner) (before : Nat) :
    Reads m.lines before r (r.add [m.declaration owner r.inSingleton r.visibility before]) := by
  -- at its first line a method is declared as if it ended there, and its `end` sets the last line
  let d := { m.declaration owner r.inSingleton r.visibility before with endLine := before + m.head.height }
  let inside := (r.add [d]).push ⟨.method, some r.outline.declarations.length, r.visibility⟩
  have hheading : r.heading m.text (before + m.head.height) none (.method none m.onSelf m.name.chars [] m.text) = inside := by
    simp only [Reading.heading, Reading.declare_eq, Reading.lastPlace_add, howner, Option.none_or, Option.getD_none]
    rfl
  have hopen := m.head.reads m.lineText before r
  rw [m.codeLine_text, hheading] at hopen
  have hbody := m.body.reads (show inside.inMethod = true from rfl) (before + (m.head.lines m.text).length)
  have hend := m.foot.reads lineText_endText (before + (m.head.lines m.text ++ m.body.lines).length) inside
  have hline : before + (m.head.lines m.text ++ m.body.lines).length + m.foot.height = before + m.lines.length := by
    simp [lines, Nat.add_assoc]
  rw [endText, Reading.codeLine_end, Reading.pop_push_add, hline] at hend
  exact (hopen.append hbody).append hend

/-! ## Bodies -/

section

variable {r : Reading} {kind : FrameKind} {place : Option Nat} {v : Visibility}

theorem visibility_push (hkind : kind.isScope = true) : (r.push ⟨kind, place, v⟩).visibility = v := by
  simp [Reading.visibility, Reading.scope?, hkind]

theorem inSingleton_push (hkind : kind.isScope = true) : (r.push ⟨kind, place, v⟩).inSingleton = decide (kind = .singleton) := by
  simp [Reading.inSingleton, Reading.scope?, hkind]

theorem inMethod_push (hkind : kind.isScope = true) : (r.push ⟨kind, place, v⟩).inMethod = r.inMethod := by
  have hne : kind ≠ .method := by
    rintro rfl
    exact absurd hkind (by decide)
  simp [Reading.inMethod, hne]

/-- A member of a body adds its declaration, or sets the visibility of the body. -/
theorem Member.reads (m : Member) {owner : String} (hkind : kind.isScope = true)
    (howner : (r.push ⟨kind, place, v⟩).container? = some owner) (hr : r.inMethod = false) (before : Nat) :
    Reads m.lines before (r.push ⟨kind, place, v⟩)
      ((r.add (m.declarations owner (kind = .singleton) v before)).push ⟨kind, place, m.visibilityAfter v⟩) := by
  cases m with
  | visibility v' margin =>
      have hline := margin.reads (lineText_visibility v') before (r.push ⟨kind, place, v⟩)
      rw [codeLine_visibility _ _ ((inMethod_push hkind).trans hr)] at hline
      have hset : ({ r.push ⟨kind, place, v⟩ with stack := Reading.setVisibility v' (r.push ⟨kind, place, v⟩).stack } : Reading) =
          r.push ⟨kind, place, v'⟩ := by
        simp [Reading.push, Reading.setVisibility, hkind]
      rw [hset] at hline
      rw [declarations, Reading.add_nil]
      exact hline
  | method m =>
      have hmethod := m.reads howner before
      rw [visibility_push hkind, inSingleton_push hkind] at hmethod
      exact hmethod

/-- Members one after the other. -/
theorem Member.reads_all (ms : List Member) {owner : String} (hkind : kind.isScope = true)
    (howner : (r.push ⟨kind, place, v⟩).container? = some owner) (hr : r.inMethod = false) (before : Nat) :
    ∃ v', Reads (ms.flatMap Member.lines) before (r.push ⟨kind, place, v⟩)
      ((r.add (allDeclarations owner (kind = .singleton) v before ms)).push ⟨kind, place, v'⟩) := by
  induction ms generalizing r v before with
  | nil =>
      refine ⟨v, ?_⟩
      rw [allDeclarations, Reading.add_nil]
      exact reads_nil _ _
  | cons m ms ih =>
      have hfirst := m.reads hkind howner hr before
      obtain ⟨v', hrest⟩ := ih (r := r.add (m.declarations owner (kind = .singleton) v before)) (v := m.visibilityAfter v)
        howner hr (before + m.lines.length)
      refine ⟨v', ?_⟩
      rw [Reading.add_add] at hrest
      exact hfirst.append hrest

end

/-- Whatever a module or class stands in, a body is read as its declarations, and the frame of its module or class
stays on the stack. -/
def Items.Recovered (items : Items) : Prop :=
  ∀ (r : Reading) (owner : String) (place : Option Nat) (v : Visibility) (before : Nat), r.inMethod = false →
    ∃ v', Reads items.lines before (r.push ⟨.container owner, place, v⟩)
      ((r.add (items.declarations owner v before)).push ⟨.container owner, place, v'⟩)

theorem ContainerHeading.qualify_name (h : ContainerHeading) (r : Reading) :
    r.qualify h.name.chars = (h.fullName r.container?, r.container?) := by
  rw [Reading.qualify, after?_of_not_mem (h.name.plain_chars.not_mem (by decide))]
  cases r.container? <;> rfl

/-- The line pushes the frame of the module or class. -/
theorem ContainerHeading.heading_eq (h : ContainerHeading) (r : Reading) (line : Nat) :
    r.heading h.text line none (.container h.kind h.name.chars (h.superclass.map ConstantName.chars)) =
      (r.add [h.declaration r.container? line line]).push
        ⟨.container (h.fullName r.container?), some r.outline.declarations.length, .publicAccess⟩ := by
  have hor : r.container?.or r.container? = r.container? := by cases r.container? <;> rfl
  have hsuper : (h.superclass.map ConstantName.chars).map relativePath =
      h.superclass.map fun name => String.ofList name.chars := by
    cases h.superclass with
    | none => rfl
    | some name => simp [name.relativePath_chars]
  simp only [Reading.heading, h.qualify_name, Reading.declare_eq, Reading.lastPlace_add, hor, hsuper]
  rfl

/-- A module or class is declared, then what its body declares. -/
theorem ContainerHeading.reads (h : ContainerHeading) (head foot : Margin) {inside : Items} (hinside : inside.Recovered)
    {r : Reading} (hr : r.inMethod = false) (before : Nat) :
    Reads (head.lines h.text ++ inside.lines ++ foot.lines endText) before r
      (r.add (h.declaration r.container? (before + head.height) (before + head.height + inside.lines.length + foot.height) ::
        inside.declarations (h.fullName r.container?) .publicAccess (before + head.height))) := by
  have hopen := head.reads h.lineText before r
  rw [h.codeLine_text, h.heading_eq] at hopen
  obtain ⟨v', hbody⟩ := hinside (r.add [h.declaration r.container? (before + head.height) (before + head.height)])
    (h.fullName r.container?) (some r.outline.declarations.length) .publicAccess (before + head.height) hr
  rw [Reading.add_add, List.singleton_append] at hbody
  have hend := foot.reads lineText_endText (before + head.height + inside.lines.length)
    ((r.add (h.declaration r.container? (before + head.height) (before + head.height) ::
      inside.declarations (h.fullName r.container?) .publicAccess (before + head.height))).push
        ⟨.container (h.fullName r.container?), some r.outline.declarations.length, v'⟩)
  rw [endText, Reading.codeLine_end, Reading.pop_push_add] at hend
  rw [List.append_assoc]
  refine hopen.append ?_
  rw [Margin.length_lines]
  exact hbody.append hend

theorem Items.recovered (items : Items) : items.Recovered := by
  induction items with
  | nil =>
      intro r owner place v before hr
      refine ⟨v, ?_⟩
      rw [declarations, Reading.add_nil]
      exact reads_nil _ _
  | member m rest ih =>
      intro r owner place v before hr
      have hfirst : Reads m.lines before (r.push ⟨.container owner, place, v⟩) _ := m.reads rfl rfl hr before
      obtain ⟨v', hrest⟩ := ih (r.add (m.declarations owner false v before)) owner place (m.visibilityAfter v)
        (before + m.lines.length) hr
      rw [Reading.add_add] at hrest
      exact ⟨v', hfirst.append hrest⟩
  | singleton head members foot rest ih =>
      intro r owner place v before hr
      have houter : (r.push ⟨.container owner, place, v⟩).inMethod = false := (inMethod_push rfl).trans hr
      have hopen := head.reads lineText_singletonText before (r.push ⟨.container owner, place, v⟩)
      rw [codeLine_singletonText] at hopen
      -- the frame of the class-level part names no container, so its members still belong to `owner`
      obtain ⟨v', hmembers⟩ : ∃ v', Reads (members.flatMap Member.lines) (before + head.height)
          ((r.push ⟨.container owner, place, v⟩).push ⟨.singleton, none, .publicAccess⟩)
          (((r.push ⟨.container owner, place, v⟩).add
            (Member.allDeclarations owner true .publicAccess (before + head.height) members)).push ⟨.singleton, none, v'⟩) :=
        Member.reads_all members rfl rfl houter (before + head.height)
      have hend := foot.reads lineText_endText (before + head.height + (members.flatMap Member.lines).length)
        (((r.push ⟨.container owner, place, v⟩).add
          (Member.allDeclarations owner true .publicAccess (before + head.height) members)).push ⟨.singleton, none, v'⟩)
      rw [endText, Reading.codeLine_end, Reading.pop_push] at hend
      obtain ⟨v'', hrest⟩ := ih (r.add (Member.allDeclarations owner true .publicAccess (before + head.height) members)) owner
        place v (before + head.height + (members.flatMap Member.lines).length + foot.height) hr
      rw [Reading.add_add] at hrest
      refine ⟨v'', ?_⟩
      rw [lines, List.append_assoc, List.append_assoc]
      refine hopen.append ?_
      rw [Margin.length_lines]
      refine hmembers.append (hend.append ?_)
      rw [Margin.length_lines]
      exact hrest
  | container heading head inside foot rest ihInside ihRest =>
      intro r owner place v before hr
      have houter : (r.push ⟨.container owner, place, v⟩).inMethod = false := (inMethod_push rfl).trans hr
      have hfirst := heading.reads head foot ihInside houter before
      obtain ⟨v', hrest⟩ := ihRest (r.add (heading.declaration (some owner) (before + head.height)
        (before + head.height + inside.lines.length + foot.height) ::
          inside.declarations (heading.fullName (some owner)) .publicAccess (before + head.height))) owner
        place v (before + head.height + inside.lines.length + foot.height) hr
      rw [Reading.add_add] at hrest
      refine ⟨v', hfirst.append ?_⟩
      rw [List.length_append, List.length_append, Margin.length_lines, Margin.length_lines, ← Nat.add_assoc, ← Nat.add_assoc]
      exact hrest

/-! ## Files -/

theorem Container.length_lines (c : Container) : c.lines.length = c.head.height + c.inside.lines.length + c.foot.height := by
  simp [lines, Nat.add_assoc]

theorem Container.reads_all (containers : List Container) {r : Reading} (howner : r.container? = none)
    (hr : r.inMethod = false) (before : Nat) :
    Reads (containers.flatMap Container.lines) before r (r.add (allDeclarations before containers)) := by
  induction containers generalizing r before with
  | nil =>
      rw [allDeclarations, Reading.add_nil]
      exact reads_nil _ _
  | cons c rest ih =>
      have hfirst : Reads c.lines before r _ := c.heading.reads c.head c.foot c.inside.recovered hr before
      have hheight : before + c.head.height + c.inside.lines.length + c.foot.height = before + c.lines.length := by
        rw [c.length_lines, Nat.add_assoc, Nat.add_assoc, Nat.add_assoc]
      rw [howner, hheight] at hfirst
      have hrest := ih (r := r.add (c.heading.declaration none (before + c.head.height) (before + c.lines.length) ::
        c.inside.declarations (c.heading.fullName none) .publicAccess (before + c.head.height))) howner hr
        (before + c.lines.length)
      rw [Reading.add_add] at hrest
      exact hfirst.append hrest

/-- A text of one line. -/
def OneLine (text : List Char) : Prop := '\n' ∉ text ∧ '\r' ∉ text

theorem oneLine_of_margin {text : List Char} (h : text.all isMarginChar = true) : OneLine text := by
  have hne : ∀ c ∈ text, c ≠ '\n' ∧ c ≠ '\r' := fun c hc => (isMarginChar_iff.1 (List.all_eq_true.1 h c hc)).2
  exact ⟨fun hmem => (hne _ hmem).1 rfl, fun hmem => (hne _ hmem).2 rfl⟩

theorem Margin.oneLine (m : Margin) {raw : List Char} (hraw : LineText raw) : ∀ line ∈ m.lines raw, OneLine line := by
  have hindent := oneLine_of_margin m.indent_wf
  intro line hline
  rcases List.mem_append.1 hline with hline | hline
  · exact oneLine_of_margin (List.all_eq_true.1 m.blank_wf line hline)
  · rw [List.mem_singleton.1 hline, OneLine, List.mem_append, List.mem_append, not_or, not_or]
    exact ⟨⟨hindent.1, hraw.not_mem (by decide)⟩, hindent.2, hraw.not_mem (by decide)⟩

theorem Blocks.oneLine (b : Blocks) : ∀ line ∈ b.lines, OneLine line := by
  induction b with
  | nil => simp [lines]
  | block opening head inside foot rest ihInside ihRest =>
      intro line hline
      simp only [lines, List.mem_append] at hline
      rcases hline with ((hline | hline) | hline) | hline
      · exact head.oneLine opening.lineText line hline
      · exact ihInside line hline
      · exact foot.oneLine lineText_endText line hline
      · exact ihRest line hline

theorem Member.oneLine (m : Member) : ∀ line ∈ m.lines, OneLine line := by
  intro line hline
  cases m with
  | visibility v margin => exact margin.oneLine (lineText_visibility v) line hline
  | method m =>
      rcases List.mem_append.1 hline with hline | hline
      · rcases List.mem_append.1 hline with hline | hline
        · exact m.head.oneLine m.lineText line hline
        · exact m.body.oneLine line hline
      · exact m.foot.oneLine lineText_endText line hline

theorem Items.oneLine (items : Items) : ∀ line ∈ items.lines, OneLine line := by
  induction items with
  | nil => simp [lines]
  | member m rest ih =>
      intro line hline
      rcases List.mem_append.1 hline with hline | hline
      · exact m.oneLine line hline
      · exact ih line hline
  | singleton head members foot rest ih =>
      intro line hline
      simp only [lines, List.mem_append, List.mem_flatMap] at hline
      rcases hline with ((hline | ⟨m, -, hline⟩) | hline) | hline
      · exact head.oneLine lineText_singletonText line hline
      · exact m.oneLine line hline
      · exact foot.oneLine lineText_endText line hline
      · exact ih line hline
  | container heading head inside foot rest ihInside ihRest =>
      intro line hline
      simp only [lines, List.mem_append] at hline
      rcases hline with ((hline | hline) | hline) | hline
      · exact head.oneLine heading.lineText line hline
      · exact ihInside line hline
      · exact foot.oneLine lineText_endText line hline
      · exact ihRest line hline

theorem Conventional.oneLine (o : Conventional) : ∀ line ∈ o.containers.flatMap Container.lines ++ o.blank, OneLine line := by
  intro line hline
  simp only [Container.lines, List.mem_append, List.mem_flatMap] at hline
  rcases hline with ⟨c, -, (hline | hline) | hline⟩ | hline
  · exact c.head.oneLine c.heading.lineText line hline
  · exact c.inside.oneLine line hline
  · exact c.foot.oneLine lineText_endText line hline
  · exact oneLine_of_margin (List.all_eq_true.1 o.blank_wf line hline)

theorem reading_step_nil (p : Progress) : (p.step []).reading = p.reading := by
  unfold Progress.step
  dsimp only
  split
  · split <;> rfl
  · split
    · rfl
    · split
      · split <;> rfl
      · rfl

/-- The reader finds in the source of a conventional outline what the outline declares, and nothing else: every module,
class and method once and in the order of the source, under its full name or its bare one, with what encloses it, its first
and its last line, its visibility and whether it is class-level. -/
theorem declarations_ofSource (o : Conventional) : (Outline.ofSource o.text).declarations = o.declarations := by
  have hbody : Reads (o.containers.flatMap Container.lines) 0 {} (Reading.add {} o.declarations) :=
    Container.reads_all o.containers rfl rfl 0
  have hblank := reads_blank o.blank_wf (0 + (o.containers.flatMap Container.lines).length) (Reading.add {} o.declarations)
  have hall := hbody.append hblank
  have hread : ((lines o.text.toList).foldl Progress.step {}).reading = Reading.add {} o.declarations := by
    rw [Conventional.text, String.toList_ofList]
    rcases lines_joinWith _ o.oneLine with hlines | hlines
    · rw [hlines]
      exact congrArg Progress.reading hall
    · -- an empty line at the end is not read, and would say nothing
      have hlast := congrArg Progress.reading hall
      rw [hlines, List.foldl_append, List.foldl_cons, List.foldl_nil, reading_step_nil] at hlast
      exact hlast
  rw [Outline.ofSource, Progress.finish, hread]
  rfl

end CodeAtlas.Outline
