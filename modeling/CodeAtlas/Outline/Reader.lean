import CodeAtlas.Outline.Line
/-!
# Reading an outline from source

The reader goes through a file line by line. It keeps a stack of open frames, one for each class, module, method or
block, and closes the innermost one at every `end`. A comment just above a declaration documents it. Comment
blocks and text blocks are passed over. What is not understood is passed over too, so every text has an outline.
-/

namespace CodeAtlas.Outline

open CodeAtlas.Text

/-- What a frame was opened by. -/
inductive FrameKind where
  /-- A class or module with its full name. -/
  | container (name : String)
  | singleton
  | method
  | block
deriving Repr, DecidableEq

/-- Whether visibility holds in such a frame. -/
def FrameKind.isScope : FrameKind → Bool
  | .container _ | .singleton => true
  | _ => false

/-- An open frame: the place of its declaration in the outline, and the visibility in force. -/
structure Frame where
  kind : FrameKind
  declaration : Option Nat := none
  visibility : Visibility := .publicAccess
deriving Repr, DecidableEq

/-- What has been read so far: the outline, and the open frames, innermost first. -/
structure Reading where
  outline : Outline := {}
  stack : List Frame := []
deriving Inhabited

namespace Reading

/-- The full name of the innermost class or module. -/
def container? (r : Reading) : Option String :=
  r.stack.findSome? fun frame =>
    match frame.kind with
    | .container name => some name
    | _ => none

/-- Whether a method is open. -/
def inMethod (r : Reading) : Bool := r.stack.any (·.kind = .method)

/-- The innermost frame in which visibility holds. -/
def scope? (r : Reading) : Option Frame := r.stack.find? (·.kind.isScope)

/-- Whether methods are class-level here. -/
def inSingleton (r : Reading) : Bool := r.scope?.any (·.kind = .singleton)

/-- The visibility in force. -/
def visibility (r : Reading) : Visibility := (r.scope?.map (·.visibility)).getD .publicAccess

/-- Opens a frame. -/
def push (r : Reading) (frame : Frame) : Reading := { r with stack := frame :: r.stack }

/-- Opens a block. -/
def pushBlock (r : Reading) : Reading := r.push { kind := .block }

/-- Opens a number of blocks. -/
def pushBlocks (r : Reading) : Nat → Reading
  | 0 => r
  | n + 1 => r.pushBlock.pushBlocks n

/-- Ends a declaration at a line. -/
def endDeclaration (outline : Outline) (place line : Nat) : Outline :=
  { outline with
    declarations := outline.declarations.modify place fun d => { d with endLine := line } }

/-- Closes the innermost frame at a line; its declaration ends there. -/
def pop (r : Reading) (line : Nat) : Reading :=
  match r.stack with
  | [] => r
  | frame :: rest =>
    match frame.declaration with
    | some place => { outline := endDeclaration r.outline place line, stack := rest }
    | none => { r with stack := rest }

/-- Closes a number of frames. -/
def popMany (r : Reading) (line : Nat) : Nat → Reading
  | 0 => r
  | n + 1 => (r.pop line).popMany line n

/-- Adds a declaration; without an enclosing name of its own it is enclosed by the innermost class or module. -/
def declare (r : Reading) (d : Declaration) (documentation : Option String) : Reading :=
  let d := { d with enclosing := d.enclosing.or r.container?, documentation := documentation }
  { r with outline := { r.outline with declarations := r.outline.declarations ++ [d] } }

/-- The place of the declaration added last. -/
def lastPlace (r : Reading) : Nat := r.outline.declarations.length - 1

/-- The full name of a class or module declared here, and what encloses it. -/
def qualify (r : Reading) (declared : List Char) : String × Option String :=
  match after? [':', ':'] declared with
  | some rest => (String.ofList rest, none)
  | none =>
    match r.container? with
    | some outer => (outer ++ "::" ++ String.ofList declared, some outer)
    | none => (String.ofList declared, none)

/-- Sets the visibility of the innermost frame in which it holds. -/
def setVisibility (v : Visibility) : List Frame → List Frame
  | [] => []
  | frame :: rest =>
    if frame.kind.isScope then { frame with visibility := v } :: rest else frame :: setVisibility v rest

/-- Reads a heading. -/
def heading (r : Reading) (raw : List Char) (line : Nat) (documentation : Option String) : Heading → Reading
  | .singleton => r.push { kind := .singleton }
  | .container kind declared superclass =>
    let (name, enclosing) := r.qualify declared
    let r := r.declare {
      name := name, kind := kind, enclosing := enclosing, startLine := line, endLine := line
      superclass := superclass.map relativePath, signature := some (String.ofList raw) } documentation
    r.push { kind := .container name, declaration := some r.lastPlace }
  | .method stated onSelf name tail signature =>
    let visibility := stated.getD r.visibility
    let classMethod := onSelf || r.inSingleton
    let r := r.declare {
      name := String.ofList name, kind := .method, startLine := line, endLine := line, visibility := visibility
      classMethod := classMethod, signature := some (String.ofList signature) } documentation
    if isEndless tail then r
    else r.push { kind := .method, declaration := some r.lastPlace, visibility := visibility }

/-- A declaration on one line. -/
def declareLine (r : Reading) (kind : SymbolKind) (name : String) (raw : List Char) (line : Nat)
    (documentation : Option String) (visibility : Visibility) : Reading :=
  r.declare {
    name := name, kind := kind, startLine := line, endLine := line, visibility := visibility
    signature := some (String.ofList raw) } documentation

/-- Reads the declaration of an association; without a name it says nothing. -/
def associate (r : Reading) (word : AssociationWord) (rest raw : List Char) (line : Nat)
    (documentation : Option String) : Reading :=
  let args := Arguments.ofChars rest
  match args.name? 0 with
  | none => r
  | some name =>
    let target := ((args.option? "class_name").bind Literal.name?).map fun c => relativePath c.toList
    let r := r.declareLine .association name raw line documentation .publicAccess
    let association : DeclaredAssociation :=
      { word := word, name := name, target := target, options := args.optionsJson, line := some line }
    { r with outline := { r.outline with associations := r.outline.associations ++ [association] } }

/-- Reads a statement of a class body. -/
def body (r : Reading) (raw : List Char) (line : Nat) (documentation : Option String) : Body → Reading
  | .visibility v => { r with stack := setVisibility v r.stack }
  | .association word rest => r.associate word rest raw line documentation
  | .scope name => r.declareLine .scope (String.ofList name) raw line documentation .publicAccess
  | .accessors rest =>
    (((Arguments.ofChars rest).positional).filterMap Literal.name?).foldl
      (fun r' name => r'.declareLine .accessor name raw line documentation r.visibility) r
  | .attributeNamed name => r.declareLine .accessor (String.ofList name) raw line documentation .publicAccess
  | .constant name => r.declareLine .constant (String.ofList name) raw line documentation .publicAccess
  | .mixin extend rest =>
    let names := ((Arguments.ofChars rest).positional.filterMap Literal.text?).map fun n => relativePath n.toList
    if extend || r.inSingleton then
      { r with outline := { r.outline with extensions := r.outline.extensions ++ names } }
    else { r with outline := { r.outline with includes := r.outline.includes ++ names } }
  | .require relative target =>
    let target := String.ofList target
    if relative then
      { r with outline := { r.outline with requireRelatives := r.outline.requireRelatives ++ [target] } }
    else { r with outline := { r.outline with requires := r.outline.requires ++ [target] } }

/-- Reads what a line declares or opens, its `do` and `end` apart. Inside a method only blocks count. -/
def content (r : Reading) (raw code : List Char) (line : Nat) (documentation : Option String) : Reading :=
  match Heading.ofLine? raw code with
  | some h => r.heading raw line documentation h
  | none =>
    if r.inMethod then
      if opensBlock code then r.pushBlock else r
    else
      match Body.ofLine? raw code with
      | some b => r.body raw line documentation b
      | none => if opensBlock code then r.pushBlock else r

/-- Reads one line of code. An `end` that starts the line closes a frame before the rest of the line is read; the others
close theirs after it. -/
def codeLine (r : Reading) (raw : List Char) (line : Nat) (documentation : Option String) : Reading :=
  let code := blankStrings raw
  let first := firstWord code
  let ends := countWord "end" code
  let leads := first = "end".toList && 0 < ends
  let r := if leads then r.pop line else r
  let r := r.content raw code line documentation
  let r := if loopWords.contains first then r else r.pushBlocks (countWord "do" code)
  r.popMany line (if leads then ends - 1 else ends)

end Reading

/-- The state between two lines: what has been read, the comment lines just above, the word that ends an open text
block, whether a comment block is open, and the number of lines passed. -/
structure Progress where
  reading : Reading := {}
  comments : List String := []
  heredoc : Option (List Char) := none
  inComment : Bool := false
  lines : Nat := 0
deriving Inhabited

namespace Progress

/-- The text of a comment line without the sign and one blank after it. -/
def commentText : List Char → String
  | ' ' :: cs => String.ofList cs
  | cs => String.ofList cs

/-- The comment lines above as documentation. -/
def documentation (p : Progress) : Option String :=
  if p.comments.isEmpty then none else some ("\n".intercalate p.comments)

/-- Reads a line that is neither in a comment block nor in a text block. -/
def plainLine (p : Progress) (text : List Char) (line : Nat) : Progress :=
  match trim text with
  | '#' :: comment => { p with comments := p.comments ++ [commentText comment] }
  | trimmed =>
    let raw := trimEnd (Scan.withoutComment trimmed)
    if raw.isEmpty then { p with comments := [] }
    else
      { p with
        reading := p.reading.codeLine raw line p.documentation
        comments := []
        heredoc := heredoc? raw }

/-- Reads one line. -/
def step (p : Progress) (text : List Char) : Progress :=
  let line := p.lines + 1
  let p := { p with lines := line }
  if p.inComment then
    if startsWith "=end".toList text then { p with inComment := false } else p
  else if startsWith "=begin".toList text then { p with inComment := true }
  else
    match p.heredoc with
    | some word => if trim text = word then { p with heredoc := none } else p
    | none => p.plainLine text line

/-- Closes what is still open at the last line. -/
def finish (p : Progress) : Outline :=
  let r := p.reading.popMany p.lines p.reading.stack.length
  { r.outline with lineCount := some p.lines }

end Progress

/-- The outline of a source text. -/
def ofSource (source : String) : Outline :=
  ((lines source.toList).foldl Progress.step {}).finish

end CodeAtlas.Outline
