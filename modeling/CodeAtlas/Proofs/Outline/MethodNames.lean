import CodeAtlas.Proofs.Outline.Closing
import Mathlib.Data.List.TakeWhile
/-!
# Names of methods and the ends of blocks

A class with methods that have no parameters, one construct a line (`ClassOutline.lines`). The names are those that the
reader takes for names behind `class` and `def`, whatever letters they consist of. The line of a method is also searched
for keywords, and its name counts: it opens a block for every `do` in it and closes a frame for every `end`. What is
declared is found with its first and last line if and only if these are equally many in every method
(`located_ofSource_iff`).
-/

namespace CodeAtlas.Outline

open CodeAtlas.Text

/-! ## Names -/

/-- Word characters. None of them is a blank, so the last condition leaves out none. -/
def isWordPart (c : Char) : Bool := isWordChar c && !isBlank c

/-- A name that the reader finds behind `def`: a letter or an underscore, word characters, and a mark that may follow. -/
structure DefinedName where
  first : Char
  rest : List Char
  mark : Option Char := none
  letter : (first.isAlpha || first == '_') = true := by decide
  word : rest.all isWordPart = true := by decide
  marked : mark.all (fun c => c == '?' || c == '!' || c == '=') = true := by decide

/-- A name that the reader finds behind `class`: a capital letter, and word characters and colons. -/
structure ClassPath where
  absolute : Bool := false
  first : Char
  rest : List Char
  capital : first.isUpper = true := by decide
  path : rest.all (fun c => isWordPart c || c == ':') = true := by decide

namespace DefinedName

variable (name : DefinedName)

def chars : List Char := name.first :: name.rest ++ name.mark.toList

/-- The line that opens the method. -/
def text : List Char := "def".toList ++ ' ' :: name.chars

def lines : List (List Char) := [name.text, endText]

/-- The method as it is declared in the lines from `first` to `last`. -/
def declaration (owner : String) (singleton : Bool) (v : Visibility) (first last : Nat) : Declaration where
  name := String.ofList name.chars
  kind := .method
  enclosing := some owner
  startLine := first
  endLine := last
  visibility := v
  signature := some (String.ofList name.text)
  classMethod := singleton

/-- A name of ASCII letters, digits and underscores. -/
def IsPlain : Prop := Plain name.rest

end DefinedName

namespace ClassPath

variable (name : ClassPath)

def chars : List Char := name.first :: name.rest

def declared : List Char := (if name.absolute then [':', ':'] else []) ++ name.chars

/-- The line that opens the class. -/
def text : List Char := "class".toList ++ ' ' :: name.declared

/-- The class as it is read in the first line. -/
def declaration (last : Nat) : Declaration where
  name := String.ofList name.chars
  kind := .classDecl
  startLine := 1
  endLine := last
  signature := some (String.ofList name.text)

/-- A name of ASCII letters, digits, underscores and colons. -/
def IsPlain : Prop := ∀ c ∈ name.rest, isNameChar c = true ∨ c = ':'

end ClassPath

/-- A class and its methods. -/
structure ClassOutline where
  name : ClassPath
  methods : List DefinedName

namespace ClassOutline

variable (o : ClassOutline)

def lines : List (List Char) := o.name.text :: (o.methods.flatMap DefinedName.lines ++ [endText])

/-- The source text, a line feed behind each line. -/
def text : String := String.ofList (o.lines.flatMap (· ++ ['\n']))

/-- The methods as declared behind `before` lines. -/
def methodsLocated (owner : String) : Nat → List DefinedName → List Located
  | _, [] => []
  | before, name :: rest =>
    ⟨.method, String.ofList name.chars, some owner, before + 1, before + 2⟩ :: methodsLocated owner (before + 2) rest

/-- What the class declares. -/
def allLocated : List Located :=
  ⟨.classDecl, String.ofList o.name.chars, none, 1, o.lines.length⟩ :: methodsLocated (String.ofList o.name.chars) 1 o.methods

end ClassOutline

/-! ## Lines -/

/-- Characters of what is declared. -/
def isDeclaredChar (c : Char) : Bool := isWordPart c || ":?!=".toList.contains c

theorem isWordPart_of_isNameChar {c : Char} (h : isNameChar c = true) : isWordPart c = true := by
  rw [isWordPart, isWordChar_of_isNameChar h, isBlank_of_isNameChar h]
  rfl

theorem isWordChar_of_isWordPart {c : Char} (h : isWordPart c = true) : isWordChar c = true :=
  (Bool.and_eq_true_iff.1 h).1

theorem isBlank_of_isDeclaredChar {c : Char} (h : isDeclaredChar c = true) : isBlank c = false := by
  rw [isDeclaredChar, Bool.or_eq_true] at h
  rcases h with h | h
  · simpa using (Bool.and_eq_true_iff.1 h).2
  · have hmarks : ∀ x ∈ ":?!=".toList, isBlank x = false := forall_mem_of_all (by decide)
    exact hmarks c (List.contains_iff_mem.1 h)

/-- What a line that opens a class or method is to the reader before it is read as a heading. -/
structure HeadingText (word : String) (raw : List Char) : Prop where
  codeText : CodeText raw
  heredoc : heredoc? raw = none
  code : blankStrings raw = raw
  first : firstWord raw = word.toList
  oneLine : OneLine raw

theorem headingText {word : String} (hword : word ∈ ["class", "def"]) {cs : List Char} (hne : cs ≠ [])
    (hcs : ∀ c ∈ cs, isDeclaredChar c = true) : HeadingText word (word.toList ++ ' ' :: cs) := by
  obtain ⟨hplain, hstart, -⟩ := fixed_words word (by revert word; decide)
  have hnot : ∀ x, isDeclaredChar x = false → x ≠ ' ' → x ∉ word.toList ++ ' ' :: cs := by
    intro x hx hblank hmem
    rcases List.mem_append.1 hmem with hmem | hmem
    · rw [isDeclaredChar, isWordPart_of_isNameChar (hplain x hmem), Bool.true_or] at hx
      exact absurd hx (by decide)
    · exact absurd (hcs x ((List.mem_cons.1 hmem).resolve_left hblank)) (by simp [hx])
  refine ⟨⟨?_, ?_, hnot '#' (by decide) (by decide)⟩, heredoc?_of_not_mem (hnot '<' (by decide) (by decide)), ?_,
    firstWord_run hplain (by rintro c ⟨⟩; decide), hnot '\n' (by decide) (by decide), hnot '\r' (by decide) (by decide)⟩
  · cases hchars : word.toList with
    | nil => exact absurd hchars hstart
    | cons c rest =>
        have hc : isNameChar c = true := hplain c (by simp [hchars])
        exact ⟨c, _, rfl, isBlank_of_isNameChar hc, ne_of_isNameChar hc (by decide)⟩
  · rw [List.getLast?_append_of_ne_nil _ (List.cons_ne_nil _ _), List.getLast?_cons_of_ne_nil hne]
    exact fun c hc => isBlank_of_isDeclaredChar (hcs c (List.mem_of_getLast? hc))
  · refine blankStrings_of_forall fun c hc => ?_
    have hquote : ∀ q, isDeclaredChar q = false → q ≠ ' ' → c ≠ q := by
      rintro q hq hblank rfl
      exact hnot c hq hblank hc
    simp [Scan.isQuote, hquote '"' (by decide) (by decide), hquote '\'' (by decide) (by decide)]

/-- A line that opens a class or method opens a block for every `do` in it and closes a frame for every `end`. -/
theorem HeadingText.reads {word : String} (hword : word ∈ ["class", "def"]) {raw : List Char} (h : HeadingText word raw)
    {heading : Heading} (hline : Heading.ofLine? raw raw = some heading) (before : Nat) (r : Reading) :
    Reads [raw] before r (((r.heading raw (before + 1) none heading).pushBlocks (countWord "do" raw)).popMany (before + 1)
      (countWord "end" raw)) := by
  have hread := reads_line (List.forall_mem_nil _) h.codeText h.heredoc before r
  have hwords : ∀ word ∈ ["class", "def"], word.toList ≠ "end".toList ∧ loopWords.contains word.toList = false := by decide
  have hfirst := hwords word hword
  rw [← h.first] at hfirst
  rw [Reading.codeLine_of_first h.code (Or.inl hfirst.1), hfirst.2, Reading.content, hline] at hread
  exact hread

namespace DefinedName

variable (name : DefinedName)

theorem isDeclaredChar_of_mem {c : Char} (h : c ∈ name.chars) : isDeclaredChar c = true := by
  rcases List.mem_append.1 h with h | h
  · rw [isDeclaredChar]
    rcases List.mem_cons.1 h with rfl | h
    · have hplain : Plain [name.first] := plain_of_letter name.letter (List.forall_mem_nil _)
      rw [isWordPart_of_isNameChar (hplain _ List.mem_cons_self), Bool.true_or]
    · rw [List.all_eq_true.1 name.word c h, Bool.true_or]
  · rcases eq_of_marked name.marked (Option.mem_toList.1 h) with rfl | rfl | rfl <;> decide

theorem headingText : HeadingText "def" name.text :=
  Outline.headingText (by decide) (List.cons_ne_nil _ _) fun _ => name.isDeclaredChar_of_mem

theorem ofLine?_text : Heading.ofLine? name.text name.text = some (.method none false name.chars [] name.text) := by
  have htrim : trimStart name.chars = name.chars :=
    trimStart_append (List.forall_mem_nil _) fun c hc =>
      isBlank_of_isDeclaredChar (name.isDeclaredChar_of_mem (List.mem_of_mem_head? hc))
  have hpoint : '.' ∉ name.chars := fun hmem => absurd (name.isDeclaredChar_of_mem hmem) (by decide)
  refine ofLine?_def ?_
  rw [htrim]
  exact definee?_of_not_mem hpoint (methodName?_word name.letter
    (fun c hc => isWordChar_of_isWordPart (List.all_eq_true.1 name.word c hc)) fun _ => eq_of_marked name.marked)

end DefinedName

namespace ClassPath

variable (name : ClassPath)

theorem isDeclaredChar_of_mem {c : Char} (h : c ∈ name.declared) : isDeclaredChar c = true := by
  have hfirst : isNameChar name.first = true := isNameChar_of_isAlpha (Bool.or_eq_true_iff.2 (Or.inl name.capital))
  rcases List.mem_append.1 h with h | h
  · split at h
    · obtain rfl : c = ':' := by simpa using h
      decide
    · exact absurd h List.not_mem_nil
  · rcases List.mem_cons.1 h with rfl | h
    · rw [isDeclaredChar, isWordPart_of_isNameChar hfirst, Bool.true_or]
    · rcases Bool.or_eq_true_iff.1 (List.all_eq_true.1 name.path c h) with h | h
      · rw [isDeclaredChar, h, Bool.true_or]
      · rw [beq_iff_eq.1 h]
        decide

theorem headingText : HeadingText "class" name.text :=
  Outline.headingText (by decide) (by simp [declared, chars]) fun _ => name.isDeclaredChar_of_mem

theorem first_ne_colon : name.first ≠ ':' := by
  intro heq
  exact absurd name.capital (by rw [heq]; decide)

theorem constantPath?_declared : constantPath? name.declared = some (name.declared, []) := by
  have hpath : ∀ c ∈ name.rest, isPathChar c = true := by
    intro c hc
    rcases Bool.or_eq_true_iff.1 (List.all_eq_true.1 name.path c hc) with h | h
    · rw [isPathChar, isWordChar_of_isWordPart h, Bool.true_or]
    · rw [isPathChar, h, Bool.or_true]
  have hplain : plainPath? name.chars = some (name.chars, []) := by
    rw [chars, plainPath?, if_pos name.capital, List.takeWhile_eq_self_iff.2 hpath,
      List.dropWhile_eq_nil_iff.2 hpath]
  rw [declared]
  split
  · change (plainPath? name.chars).map _ = _
    rw [hplain]
    rfl
  · rw [List.nil_append]
    unfold constantPath?
    split
    next heq => exact absurd (List.cons.inj heq).1 name.first_ne_colon
    next => exact hplain

theorem ofLine?_text : Heading.ofLine? name.text name.text = some (.container .classDecl name.declared none) := by
  have htrim : trimStart name.declared = name.declared :=
    trimStart_append (List.forall_mem_nil _) fun c hc =>
      isBlank_of_isDeclaredChar (name.isDeclaredChar_of_mem (List.mem_of_mem_head? hc))
  exact ofLine?_class (by rw [htrim, name.constantPath?_declared])

theorem qualify_declared {r : Reading} (h : r.container? = none) :
    r.qualify name.declared = (String.ofList name.chars, none) := by
  rw [Reading.qualify, declared]
  cases name.absolute with
  | true => rfl
  | false =>
      have hafter : after? [':', ':'] name.chars = none := by rw [chars, after?, if_neg name.first_ne_colon.symm]
      simp [hafter, h]

end ClassPath

/-! ## Methods -/

theorem reads_end (before : Nat) (r : Reading) : Reads [endText] before r (r.pop (before + 1)) := by
  have hread := reads_line (List.forall_mem_nil _) lineText_endText.codeText lineText_endText.heredoc before r
  rwa [endText, Reading.codeLine_end] at hread

namespace DefinedName

variable (name : DefinedName)

/-- The line of the method opens as many blocks as it closes frames. -/
def Balanced : Prop := countWord "end" name.text = countWord "do" name.text

/-- The reading with the method open, as it is behind `before` lines. -/
def opened (r : Reading) (owner : String) (before : Nat) : Reading :=
  (r.add [name.declaration owner r.inSingleton r.visibility (before + 1) (before + 1)]).push
    ⟨.method, some r.outline.declarations.length, r.visibility⟩

theorem pop_opened (r : Reading) (owner : String) (before line : Nat) :
    (name.opened r owner before).pop line = r.add [name.declaration owner r.inSingleton r.visibility (before + 1) line] :=
  Reading.pop_push_add r _ _ _ _ _

section

variable {r : Reading} {owner : String} (howner : r.container? = some owner) (before : Nat)

include howner

theorem reads_text :
    Reads [name.text] before r (((name.opened r owner before).pushBlocks (countWord "do" name.text)).popMany (before + 1)
      (countWord "end" name.text)) := by
  have hheading : r.heading name.text (before + 1) none (.method none false name.chars [] name.text) =
      name.opened r owner before := by
    simp only [Reading.heading, Reading.declare_eq, Reading.lastPlace_add, howner, Option.none_or, Option.getD_none]
    rfl
  have hread := name.headingText.reads (by decide) name.ofLine?_text before r
  rwa [hheading] at hread

theorem reads (h : name.Balanced) :
    Reads name.lines before r (r.add [name.declaration owner r.inSingleton r.visibility (before + 1) (before + 2)]) := by
  have htext := name.reads_text howner before
  rw [Balanced] at h
  rw [Reading.popMany_pushBlocks, h, if_pos le_rfl, Nat.sub_self] at htext
  have hend := reads_end (before + [name.text].length) ((name.opened r owner before).pushBlocks 0)
  rw [Reading.pushBlocks, pop_opened] at hend
  exact htext.append hend

/-- A method whose line closes more frames than it opens blocks ends in that line, and one whose line opens more blocks
does not end with its own `end`. -/
theorem endLine_ne (hbound : ∀ i ∈ Reading.places r.stack, i < r.outline.declarations.length) (h : ¬ name.Balanced)
    {rest : List (List Char)} (hrest : rest ≠ []) :
    (((name.lines ++ rest).foldl Progress.step (calm r before)).finish.declarations[r.outline.declarations.length]?).map
      (·.endLine) ≠ some (before + 2) := by
  have htext := name.reads_text howner before
  rw [Reading.popMany_pushBlocks] at htext
  have hopen : (name.opened r owner before).outline.declarations[r.outline.declarations.length]? =
      some (name.declaration owner r.inSingleton r.visibility (before + 1) (before + 1)) :=
    List.getElem?_concat_length
  rcases lt_or_gt_of_ne h with hlt | hgt
  · -- blocks are left over, and the `end` of the method closes one of them
    obtain ⟨left, hleft⟩ := Nat.exists_eq_add_of_lt hlt
    rw [if_pos hlt.le, hleft, Nat.add_assoc, Nat.add_sub_cancel_left, Reading.pushBlocks_succ] at htext
    have hread : Reads name.lines before r ((name.opened r owner before).pushBlocks left) :=
      htext.append (reads_end (before + 1) _)
    have hplace : r.outline.declarations.length ∈ Reading.places ((name.opened r owner before).pushBlocks left).stack := by
      rw [Reading.places_pushBlocks]
      exact List.mem_cons_self
    obtain ⟨q, ⟨d, hd, hlast⟩, hstack, hds⟩ := (Reading.upheld_open _ (before + 2)).finish_reads hread le_rfl
      ⟨_, (by rw [Reading.outline_pushBlocks]; exact hopen), Or.inl hplace⟩ rest
      (Nat.lt_add_of_pos_right (List.length_pos_iff.2 hrest))
    rw [hstack] at hlast
    rw [hds, hd, Option.map_some, ne_eq, Option.some.injEq]
    exact (hlast.resolve_left List.not_mem_nil).ne'
  · -- the frame of the method is closed in the line that opens it
    obtain ⟨more, hmore⟩ := Nat.exists_eq_add_of_lt hgt
    rw [if_neg hgt.not_ge, hmore, Nat.add_assoc, Nat.add_sub_cancel_left, Reading.popMany, pop_opened] at htext
    have hclosed := Reading.upheld_closed r.outline.declarations.length (before + 1)
    have hafter := hclosed.popMany (r := r.add [name.declaration owner r.inSingleton r.visibility (before + 1) (before + 1)])
      (Nat.succ_pos before) ⟨fun hmem => (hbound _ hmem).ne rfl, congrArg _ hopen⟩ more
    obtain ⟨q, ⟨-, hlast⟩, -, hds⟩ := hclosed.finish_reads htext (Nat.zero_le _) hafter (endText :: rest)
      (Nat.add_pos_right _ (Nat.succ_pos _))
    rw [show name.lines ++ rest = [name.text] ++ endText :: rest from rfl, hds, hlast, ne_eq, Option.some.injEq]
    omega

end

/-- Balanced methods one after the other add their declarations, and nothing else. -/
theorem reads_all {names : List DefinedName} (h : ∀ name ∈ names, name.Balanced) {r : Reading} {owner : String}
    (howner : r.container? = some owner) (before : Nat) :
    ∃ ds, Reads (names.flatMap lines) before r (r.add ds) ∧
      ds.map Declaration.located = ClassOutline.methodsLocated owner before names := by
  induction names generalizing r before with
  | nil => exact ⟨[], by rw [Reading.add_nil]; exact reads_nil before r, rfl⟩
  | cons name names ih =>
      obtain ⟨hname, hnames⟩ := List.forall_mem_cons.1 h
      have hfirst := name.reads howner before hname
      obtain ⟨ds, hrest, hlocated⟩ := ih hnames
        (r := r.add [name.declaration owner r.inSingleton r.visibility (before + 1) (before + 2)]) howner (before + 2)
      rw [Reading.add_add] at hrest
      exact ⟨_, hfirst.append hrest, congrArg (_ :: ·) hlocated⟩

/-- If every method is found to end with its own `end`, all are balanced. -/
theorem balanced_of_endLines {names : List DefinedName} {r : Reading} {owner : String} (howner : r.container? = some owner)
    (hbound : ∀ i ∈ Reading.places r.stack, i < r.outline.declarations.length) (before : Nat) {rest : List (List Char)}
    (hrest : rest ≠ [])
    (h : ∀ i < names.length,
      (((names.flatMap lines ++ rest).foldl Progress.step (calm r before)).finish.declarations[
        r.outline.declarations.length + i]?).map (·.endLine) = some (before + 2 * i + 2)) :
    ∀ name ∈ names, name.Balanced := by
  induction names generalizing r before with
  | nil => exact List.forall_mem_nil _
  | cons name names ih =>
      rw [List.flatMap_cons, List.append_assoc] at h
      have hname : name.Balanced := by
        by_contra hname
        exact name.endLine_ne howner before hbound hname (List.append_ne_nil_of_right_ne_nil _ hrest) (h 0 (Nat.succ_pos _))
      let next := r.add [name.declaration owner r.inSingleton r.visibility (before + 1) (before + 2)]
      have hlength : next.outline.declarations.length = r.outline.declarations.length + 1 := List.length_append
      refine List.forall_mem_cons.2 ⟨hname, ih (r := next) howner ?_ (before + 2) fun i hi => ?_⟩
      · rw [hlength]
        exact fun i hi => Nat.lt_succ_of_lt (hbound i hi)
      · have hread : name.lines.foldl Progress.step (calm r before) = calm next (before + 2) := name.reads howner before hname
        have hnext := h (i + 1) (Nat.succ_lt_succ hi)
        rw [List.foldl_append, hread] at hnext
        rw [hlength, Nat.add_assoc, Nat.add_comm 1, show before + 2 + 2 * i + 2 = before + 2 * (i + 1) + 2 by omega]
        exact hnext

end DefinedName

/-! ## The class -/

namespace ClassPath

variable (name : ClassPath)

/-- The line of the class closes no more frames than it opens blocks. -/
def Lasting : Prop := countWord "end" name.text ≤ countWord "do" name.text

/-- The reading with the class open. -/
def opened : Reading :=
  (Reading.add {} [name.declaration 1]).push ⟨.container (String.ofList name.chars), some 0, .publicAccess⟩

theorem reads_text :
    Reads [name.text] 0 {} ((name.opened.pushBlocks (countWord "do" name.text)).popMany 1 (countWord "end" name.text)) := by
  have hheading : Reading.heading {} name.text 1 none (.container .classDecl name.declared none) = name.opened := by
    rw [Reading.heading, name.qualify_declared rfl]
    rfl
  have hread := name.headingText.reads (by decide) name.ofLine?_text 0 {}
  rwa [hheading] at hread

/-- Closing the blocks in it and then the class leaves nothing open. -/
theorem popMany_opened (ds : List Declaration) (line left : Nat) :
    ((name.opened.add ds).pushBlocks left).popMany line (left + 1) = Reading.add {} (name.declaration line :: ds) := by
  rw [Reading.popMany_pushBlocks, if_neg left.lt_succ_self.not_ge, Nat.add_sub_cancel_left]
  exact Reading.pop_push_add {} (name.declaration 1) ds _ _ line

end ClassPath

namespace ClassOutline

variable (o : ClassOutline)

theorem length_lines : o.lines.length = 2 * o.methods.length + 2 := by
  have hmethods : ∀ names : List DefinedName, (names.flatMap DefinedName.lines).length = 2 * names.length := by
    intro names
    simp [DefinedName.lines, Nat.mul_comm]
  simp [lines, hmethods]

theorem located_foldl (hclass : o.name.Lasting) (hmethods : ∀ name ∈ o.methods, name.Balanced) :
    (o.lines.foldl Progress.step {}).finish.declarations.map Declaration.located = o.allLocated := by
  rw [ClassPath.Lasting] at hclass
  obtain ⟨left, hleft⟩ := Nat.exists_eq_add_of_le hclass
  have htext := o.name.reads_text
  rw [Reading.popMany_pushBlocks, if_pos hclass, hleft, Nat.add_sub_cancel_left] at htext
  obtain ⟨ds, hinside, hlocated⟩ := DefinedName.reads_all hmethods
    (r := o.name.opened.pushBlocks left) (Reading.container?_pushBlocks _ _) (0 + [o.name.text].length)
  rw [Reading.pushBlocks_add_comm] at hinside
  have hread : Reads o.lines 0 {} _ := htext.append (hinside.append (reads_end _ _))
  have hline : 0 + [o.name.text].length + (o.methods.flatMap DefinedName.lines).length + 1 = 0 + o.lines.length := by
    simp [lines, Nat.add_comm]
  have hstack : (((o.name.opened.add ds).pushBlocks left).pop (0 + o.lines.length)).stack.length = left := by
    rw [Reading.stack_pop, List.length_tail, Reading.length_stack_pushBlocks]
    exact Nat.add_sub_cancel_left 1 left
  rw [hline] at hread
  have hfinal := hread.finish
  rw [hstack] at hfinal
  have hclosed := o.name.popMany_opened ds (0 + o.lines.length) left
  rw [Reading.popMany] at hclosed
  rw [hclosed, Nat.zero_add] at hfinal
  rw [show ({} : Progress) = calm {} 0 from rfl, hfinal]
  exact congrArg (_ :: ·) hlocated

theorem endLine_methodsLocated (owner : String) (names : List DefinedName) (before : Nat) {i : Nat} (hi : i < names.length) :
    ((methodsLocated owner before names)[i]?).map Located.last = some (before + 2 * i + 2) := by
  induction names generalizing before i with
  | nil => exact absurd hi (Nat.not_lt_zero i)
  | cons name names ih =>
      cases i with
      | zero => rfl
      | succ i =>
          rw [methodsLocated, List.getElem?_cons_succ, ih (before + 2) (Nat.lt_of_succ_lt_succ hi), Option.some.injEq]
          omega

theorem balanced_of_located (h : (o.lines.foldl Progress.step {}).finish.declarations.map Declaration.located = o.allLocated) :
    o.name.Lasting ∧ ∀ name ∈ o.methods, name.Balanced := by
  have htext := o.name.reads_text
  rw [Reading.popMany_pushBlocks] at htext
  have hends : ∀ i : Nat, ((o.lines.foldl Progress.step (calm {} 0)).finish.declarations[i]?).map (·.endLine) =
      (o.allLocated[i]?).map (·.last) := by
    intro i
    rw [← h, List.getElem?_map, Option.map_map]
    rfl
  have hclass : o.name.Lasting := by
    by_contra hclass
    rw [ClassPath.Lasting, Nat.not_le] at hclass
    obtain ⟨more, hmore⟩ := Nat.exists_eq_add_of_lt hclass
    have hpop : o.name.opened.pop 1 = Reading.add {} [o.name.declaration 1] :=
      Reading.pop_push_add {} (o.name.declaration 1) [] _ _ 1
    rw [if_neg hclass.not_ge, hmore, Nat.add_assoc, Nat.add_sub_cancel_left, Reading.popMany, hpop] at htext
    have hclosed := Reading.upheld_closed 0 1
    have hafter := hclosed.popMany (r := Reading.add {} [o.name.declaration 1]) Nat.zero_lt_one ⟨List.not_mem_nil, rfl⟩ more
    obtain ⟨q, ⟨-, hlast⟩, -, hds⟩ := hclosed.finish_reads htext (Nat.zero_le _) hafter
      (o.methods.flatMap DefinedName.lines ++ [endText]) (Nat.add_pos_left Nat.zero_lt_one _)
    rw [← hds] at hlast
    have hlength : some o.lines.length = some 1 := (hends 0).symm.trans hlast
    rw [Option.some.injEq, length_lines] at hlength
    omega
  refine ⟨hclass, ?_⟩
  rw [ClassPath.Lasting] at hclass
  rw [if_pos hclass] at htext
  generalize hleft : countWord "do" o.name.text - countWord "end" o.name.text = left at htext
  have howner : (o.name.opened.pushBlocks left).container? = some (String.ofList o.name.chars) :=
    Reading.container?_pushBlocks _ _
  have hlength : (o.name.opened.pushBlocks left).outline.declarations.length = 1 := by
    rw [Reading.outline_pushBlocks]
    rfl
  refine DefinedName.balanced_of_endLines howner ?_ 1 (List.cons_ne_nil endText []) fun i hi => ?_
  · intro i hi
    rw [Reading.places_pushBlocks] at hi
    rw [hlength, List.mem_singleton.1 hi]
    exact Nat.zero_lt_one
  · have hread : [o.name.text].foldl Progress.step (calm {} 0) = calm (o.name.opened.pushBlocks left) 1 := htext
    have hend := hends (i + 1)
    rw [allLocated, List.getElem?_cons_succ, endLine_methodsLocated _ _ _ hi, lines, List.foldl_cons] at hend
    rw [hlength, Nat.add_comm 1, ← hread]
    exact hend

theorem lines_text : Text.lines o.text.toList = o.lines := by
  rw [text, String.toList_ofList]
  refine lines_flatMap _ fun line hline => ?_
  rcases List.mem_cons.1 hline with rfl | hline
  · exact o.name.headingText.oneLine
  · rcases List.mem_append.1 hline with hline | hline
    · obtain ⟨name, -, hline⟩ := List.mem_flatMap.1 hline
      rcases List.mem_cons.1 hline with rfl | hline
      · exact name.headingText.oneLine
      · rw [List.mem_singleton.1 hline]
        exact ⟨by decide, by decide⟩
    · rw [List.mem_singleton.1 hline]
      exact ⟨by decide, by decide⟩

end ClassOutline

/-! ## Plain names -/

theorem countFrom_of_joined {word : List Char} {prev : Char} (hprev : mayPrecede prev = false) {cs : List Char}
    (h : ∀ c ∈ cs, mayPrecede c = false) : countFrom word (some prev) cs = 0 := by
  induction cs generalizing prev with
  | nil => rfl
  | cons c cs ih =>
      obtain ⟨hc, hcs⟩ := List.forall_mem_cons.1 h
      rw [countFrom_cons fun tail _ => by simp [hprev], ih hc hcs]

/-- A plain name of a class holds no keyword. -/
theorem ClassPath.lasting_of_isPlain {name : ClassPath} (h : name.IsPlain) : name.Lasting := by
  have hfirst : isNameChar name.first = true := isNameChar_of_isAlpha (Bool.or_eq_true_iff.2 (Or.inl name.capital))
  have hrest : ∀ c ∈ name.rest, mayPrecede c = false := by
    intro c hc
    rcases h c hc with h | rfl
    · exact mayPrecede_of_isNameChar h
    · decide
  have hhead : ∃ c cs, name.declared = c :: cs ∧ c ≠ 'e' ∧ mayPrecede c = false ∧ ∀ d ∈ cs, mayPrecede d = false := by
    rw [declared]
    split
    · refine ⟨':', ':' :: name.chars, rfl, by decide, by decide, ?_⟩
      rw [chars]
      simpa using ⟨by decide, mayPrecede_of_isNameChar hfirst, hrest⟩
    · refine ⟨name.first, name.rest, rfl, ?_, mayPrecede_of_isNameChar hfirst, hrest⟩
      intro heq
      exact absurd name.capital (by rw [heq]; decide)
  obtain ⟨c, cs, hdeclared, hne, hc, hcs⟩ := hhead
  have hword := (fixed_words "class" (by simp)).2.2 "end" (by simp)
  have hzero : countWord "end" name.text = 0 := by
    rw [countWord, text, countFrom_run_cons (by decide) (by decide) (by decide) hword (by decide), hdeclared,
      countFrom_cons fun tail htail => absurd (List.cons.inj htail).1 hne]
    exact countFrom_of_joined hc hcs
  rw [Lasting, hzero]
  exact Nat.zero_le _

/-- A plain name of a method is counted only if it is a keyword, or one with the sign of an assignment. -/
theorem DefinedName.balanced_iff {name : DefinedName} (h : name.IsPlain) :
    name.Balanced ↔ name.chars ∉ ["end", "end=", "do", "do="].map String.toList := by
  constructor
  · intro hbalanced hmem
    have hcounted : ∀ chars ∈ ["end", "end=", "do", "do="].map String.toList,
        countWord "end" ("def".toList ++ ' ' :: chars) ≠ countWord "do" ("def".toList ++ ' ' :: chars) := by decide
    exact hcounted name.chars hmem hbalanced
  · intro hallowed
    let method : Method := { name := ⟨name.first, name.rest, name.mark, name.letter, h, name.marked, hallowed⟩ }
    have hsilent : Silent name.text := method.silent
    exact hsilent.1.trans hsilent.2.symm

/-! ## What is declared where -/

/-- In every source whose lines are those of a class with methods, the reader finds the class and every method with its
enclosing name, its first line and the line of its own `end` if and only if the line of the class closes no more frames than it
opens blocks and that of every method as many. Names of ASCII characters stand in the way only if they are `end` or `do`,
with or without the sign of an assignment. -/
theorem located_ofSource_iff (o : ClassOutline) {source : String} (h : lines source.toList = o.lines) :
    ((ofSource source).declarations.map Declaration.located = o.allLocated ↔
        o.name.Lasting ∧ ∀ name ∈ o.methods, name.Balanced) ∧
      (o.name.IsPlain → (∀ name ∈ o.methods, name.IsPlain) →
        ((ofSource source).declarations.map Declaration.located = o.allLocated ↔
          ∀ name ∈ o.methods, name.chars ∉ ["end", "end=", "do", "do="].map String.toList)) := by
  have hiff : (ofSource source).declarations.map Declaration.located = o.allLocated ↔
      o.name.Lasting ∧ ∀ name ∈ o.methods, name.Balanced := by
    rw [ofSource, h]
    exact ⟨o.balanced_of_located, fun hbalanced => o.located_foldl hbalanced.1 hbalanced.2⟩
  refine ⟨hiff, fun hname hmethods => ?_⟩
  rw [hiff, and_iff_right (ClassPath.lasting_of_isPlain hname)]
  exact forall₂_congr fun name hmem => name.balanced_iff (hmethods name hmem)

/-- A class with a method named `end?` and one named `undo`. -/
def markedOutline : ClassOutline where
  name := { first := 'C', rest := [] }
  methods := [{ first := 'e', rest := ['n', 'd'], mark := some '?' }, { first := 'u', rest := ['n', 'd', 'o'] }]

theorem located_ofSource_iff_marked :
    lines markedOutline.text.toList = markedOutline.lines ∧
      (ofSource markedOutline.text).declarations.map Declaration.located = markedOutline.allLocated := by
  have hplain : ∀ name ∈ markedOutline.methods, name.IsPlain := by
    have hrest : ∀ name ∈ markedOutline.methods, name.rest.all isNameChar = true := by decide
    exact fun name hname => List.all_eq_true.1 (hrest name hname)
  have hmarked := (located_ofSource_iff markedOutline markedOutline.lines_text).2 (List.forall_mem_nil _) hplain
  exact ⟨markedOutline.lines_text, hmarked.2 (by decide)⟩

/-- A class with a method named `end` and one named `x`. -/
def endOutline : ClassOutline where
  name := { first := 'C', rest := [] }
  methods := [{ first := 'e', rest := ['n', 'd'] }, { first := 'x', rest := [] }]

/-- The method `end` ends in its first line, the class with the method, and `x` stands outside of the class. -/
theorem exists_misplaced : endOutline.text = "class C\ndef end\nend\ndef x\nend\nend\n" ∧
    (ofSource endOutline.text).declarations.map Declaration.located =
      [⟨.classDecl, "C", none, 1, 3⟩, ⟨.method, "end", some "C", 2, 2⟩, ⟨.method, "x", none, 4, 5⟩] ∧
    endOutline.allLocated =
      [⟨.classDecl, "C", none, 1, 6⟩, ⟨.method, "end", some "C", 2, 3⟩, ⟨.method, "x", some "C", 4, 5⟩] := by
  decide +kernel

end CodeAtlas.Outline
