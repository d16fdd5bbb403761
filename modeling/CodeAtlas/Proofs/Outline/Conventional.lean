import CodeAtlas.Proofs.Outline.Lines
/-!
# Conventional outlines

Source that holds modules, classes, class-level parts, visibilities and methods with blocks in them, one construct on a
line and an `end` for each that opens. `Conventional.text` writes such an outline at any indentation and with blank lines
anywhere, and `Conventional.declarations` says what is declared in it and where, by recursion on the outline.
-/

namespace CodeAtlas.Outline

open CodeAtlas.Text

/-! ## Names -/

/-- The name of a module or class. -/
structure ConstantName where
  first : Char
  rest : List Char
  capital : first.isUpper = true := by decide
  plain : Plain rest := by decide

def ConstantName.chars (name : ConstantName) : List Char := name.first :: name.rest

/-- The name of a method: a word, and a mark that may follow it. Words that end or open a block are left out, also with the
mark that does not keep them from doing so. -/
structure MethodName where
  first : Char
  rest : List Char
  mark : Option Char := none
  letter : (first.isAlpha || first == '_') = true := by decide
  plain : Plain rest := by decide
  marked : mark.all (fun c => c == '?' || c == '!' || c == '=') = true := by decide
  allowed : first :: rest ++ mark.toList ∉ ["end", "end=", "do", "do="].map String.toList := by decide

def MethodName.chars (name : MethodName) : List Char := name.first :: name.rest ++ name.mark.toList

/-- The name of a variable, which is no word that opens or ends a block. -/
structure LocalName where
  first : Char
  rest : List Char
  letter : (first.isAlpha || first == '_') = true := by decide
  plain : Plain rest := by decide
  allowed : first :: rest ∉ blockWords ++ ["end", "do"].map String.toList := by decide

def LocalName.chars (name : LocalName) : List Char := name.first :: name.rest

/-! ## Layout -/

/-- Blanks that are no part of a line break. -/
def isMarginChar (c : Char) : Bool := isBlank c && c != '\n' && c != '\r'

theorem isMarginChar_iff {c : Char} : isMarginChar c = true ↔ isBlank c = true ∧ c ≠ '\n' ∧ c ≠ '\r' := by
  simp [isMarginChar, and_assoc]

/-- What stands before the text of a line: blank lines, and its indentation. -/
structure Margin where
  blank : List (List Char) := []
  indent : List Char := []
  blank_wf : blank.all (·.all isMarginChar) = true := by decide
  indent_wf : indent.all isMarginChar = true := by decide

namespace Margin

def lines (m : Margin) (raw : List Char) : List (List Char) := m.blank ++ [m.indent ++ raw]

def height (m : Margin) : Nat := m.blank.length + 1

@[simp] theorem length_lines (m : Margin) (raw : List Char) : (m.lines raw).length = m.height := by
  simp [lines, height]

end Margin

def endText : List Char := "end".toList

/-! ## Methods -/

/-- A line that opens a block. -/
inductive Opening where
  | condition (test : LocalName)
  | loop (items item : LocalName)

def Opening.text : Opening → List Char
  | .condition test => "if".toList ++ ' ' :: test.chars
  | .loop items item => items.chars ++ '.' :: ("each".toList ++ ' ' :: ("do".toList ++ ' ' :: '|' :: (item.chars ++ ['|'])))

/-- The blocks of the body of a method: each has blocks inside it, and blocks after it. -/
inductive Blocks where
  | nil
  | block (opening : Opening) (head : Margin) (inside : Blocks) (foot : Margin) (rest : Blocks)

def Blocks.lines : Blocks → List (List Char)
  | .nil => []
  | .block opening head inside foot rest =>
    head.lines opening.text ++ inside.lines ++ foot.lines endText ++ rest.lines

/-- A method, on the class or on its instances. -/
structure Method where
  onSelf : Bool := false
  name : MethodName
  head : Margin := {}
  body : Blocks := .nil
  foot : Margin := {}

namespace Method

def text (m : Method) : List Char :=
  "def".toList ++ ' ' :: ((if m.onSelf then Declaration.selfMark else []) ++ m.name.chars)

def lines (m : Method) : List (List Char) := m.head.lines m.text ++ m.body.lines ++ m.foot.lines endText

/-- What a method declares, where `before` lines stand before it. -/
def declaration (m : Method) (owner : String) (singleton : Bool) (v : Visibility) (before : Nat) : Declaration where
  name := String.ofList m.name.chars
  kind := .method
  enclosing := some owner
  startLine := before + m.head.height
  endLine := before + m.lines.length
  visibility := v
  signature := some (String.ofList m.text)
  classMethod := m.onSelf || singleton

end Method

/-- What stands in a class-level part: visibilities and methods. -/
inductive Member where
  | visibility (v : Visibility) (margin : Margin)
  | method (m : Method)

namespace Member

def lines : Member → List (List Char)
  | .visibility v margin => margin.lines v.name.toList
  | .method m => m.lines

def declarations (owner : String) (singleton : Bool) (v : Visibility) (before : Nat) : Member → List Declaration
  | .visibility _ _ => []
  | .method m => [m.declaration owner singleton v before]

def visibilityAfter (v : Visibility) : Member → Visibility
  | .visibility v' _ => v'
  | .method _ => v

/-- What members declare, one after the other. -/
def allDeclarations (owner : String) (singleton : Bool) : Visibility → Nat → List Member → List Declaration
  | _, _, [] => []
  | v, before, m :: rest =>
    m.declarations owner singleton v before ++
      allDeclarations owner singleton (m.visibilityAfter v) (before + m.lines.length) rest

end Member

/-! ## Modules and classes -/

/-- A line that opens a module or a class. -/
inductive ContainerHeading where
  | moduleNamed (name : ConstantName)
  | classNamed (name : ConstantName) (superclass : Option ConstantName)

namespace ContainerHeading

def name : ContainerHeading → ConstantName
  | .moduleNamed name => name
  | .classNamed name _ => name

def kind : ContainerHeading → SymbolKind
  | .moduleNamed _ => .moduleDecl
  | .classNamed _ _ => .classDecl

def superclass : ContainerHeading → Option ConstantName
  | .moduleNamed _ => none
  | .classNamed _ superclass => superclass

def word : ContainerHeading → String
  | .moduleNamed _ => "module"
  | .classNamed _ _ => "class"

def tail (h : ContainerHeading) : List Char :=
  match h.superclass with
  | some name => ' ' :: '<' :: ' ' :: name.chars
  | none => []

def text (h : ContainerHeading) : List Char := h.word.toList ++ ' ' :: (h.name.chars ++ h.tail)

/-- The name together with that of the enclosing module or class. -/
def fullName (h : ContainerHeading) : Option String → String
  | some owner => owner ++ "::" ++ String.ofList h.name.chars
  | none => String.ofList h.name.chars

/-- What the line declares, from its line to another. -/
def declaration (h : ContainerHeading) (owner : Option String) (first last : Nat) : Declaration where
  name := h.fullName owner
  kind := h.kind
  enclosing := owner
  startLine := first
  endLine := last
  superclass := h.superclass.map fun name => String.ofList name.chars
  signature := some (String.ofList h.text)

end ContainerHeading

def singletonText : List Char := "class << self".toList

/-- The body of a module or class: members, class-level parts, and modules and classes with bodies of their own. -/
inductive Items where
  | nil
  | member (m : Member) (rest : Items)
  | singleton (head : Margin) (members : List Member) (foot : Margin) (rest : Items)
  | container (heading : ContainerHeading) (head : Margin) (inside : Items) (foot : Margin) (rest : Items)

namespace Items

def lines : Items → List (List Char)
  | .nil => []
  | .member m rest => m.lines ++ rest.lines
  | .singleton head members foot rest =>
    head.lines singletonText ++ members.flatMap Member.lines ++ foot.lines endText ++ rest.lines
  | .container heading head inside foot rest =>
    head.lines heading.text ++ inside.lines ++ foot.lines endText ++ rest.lines

/-- What a body declares in the module or class `owner`. Methods have the visibility that was stated last in the same
body, and are public before that. -/
def declarations (owner : String) : Visibility → Nat → Items → List Declaration
  | _, _, .nil => []
  | v, before, .member m rest =>
    m.declarations owner false v before ++ rest.declarations owner (m.visibilityAfter v) (before + m.lines.length)
  | v, before, .singleton head members foot rest =>
    Member.allDeclarations owner true .publicAccess (before + head.height) members ++
      rest.declarations owner v (before + head.height + (members.flatMap Member.lines).length + foot.height)
  | v, before, .container heading head inside foot rest =>
    heading.declaration (some owner) (before + head.height) (before + head.height + inside.lines.length + foot.height) ::
        inside.declarations (heading.fullName (some owner)) .publicAccess (before + head.height) ++
      rest.declarations owner v (before + head.height + inside.lines.length + foot.height)

end Items

/-- A module or class at the top of a file. -/
structure Container where
  heading : ContainerHeading
  head : Margin := {}
  inside : Items := .nil
  foot : Margin := {}

namespace Container

def lines (c : Container) : List (List Char) := c.head.lines c.heading.text ++ c.inside.lines ++ c.foot.lines endText

/-- What modules and classes at the top declare, one after the other. -/
def allDeclarations : Nat → List Container → List Declaration
  | _, [] => []
  | before, c :: rest =>
    c.heading.declaration none (before + c.head.height) (before + c.lines.length) ::
        c.inside.declarations (c.heading.fullName none) .publicAccess (before + c.head.height) ++
      allDeclarations (before + c.lines.length) rest

end Container

/-- A conventional outline: modules and classes, and the blank lines at the end. -/
structure Conventional where
  containers : List Container
  blank : List (List Char) := []
  blank_wf : blank.all (·.all isMarginChar) = true := by decide

namespace Conventional

/-- The source text. A blank line at the end stands for the line feed that ends the line before it. -/
def text (o : Conventional) : String :=
  String.ofList (joinWith ['\n'] (o.containers.flatMap Container.lines ++ o.blank))

def declarations (o : Conventional) : List Declaration := Container.allDeclarations 0 o.containers

-- A class with a private method that has a block in it.
example :
    let method : Method :=
      { onSelf := true, name := { first := 'g', rest := ['o'], mark := some '!' }, head := { blank := [[]], indent := [' '] }
        body := .block (.condition { first := 'x', rest := [] }) {} .nil {} .nil, foot := { indent := [' '] } }
    let o : Conventional :=
      { containers := [
          { heading := .classNamed { first := 'A', rest := [] } (some { first := 'B', rest := [] })
            inside := .member (.visibility .privateAccess { indent := [' '] }) (.member (.method method) .nil) }]
        blank := [[]] }
    o.text = "class A < B\n private\n\n def self.go!\nif x\nend\n end\nend\n" ∧
      o.declarations.map (fun d => (d.name, d.enclosing, d.startLine, d.endLine, d.visibility, d.classMethod)) =
        [("A", none, 1, 8, .publicAccess, false), ("go!", some "A", 4, 7, .privateAccess, true)] := by decide

end Conventional

end CodeAtlas.Outline
