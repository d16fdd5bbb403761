import CodeAtlas.Outline.Basic
import CodeAtlas.Literal.Reader
/-!
# Lines of Ruby source

What one trimmed line without its comment says. A line is looked at twice: as written (`raw`), and with the contents of
its strings left out (`code`), so that a keyword inside a string does not count. `Heading.ofLine?` finds the lines
that open a class, a module or a method; `Body.ofLine?` finds what may stand in a class body besides; and the blocks a
line opens and closes are counted by whole words.
-/

namespace CodeAtlas.Outline

open CodeAtlas.Text

/-- Leaves out the contents of strings, from a given state on; the quotes stay. -/
def blankFrom : Scan → List Char → List Char
  | _, [] => []
  | s, c :: cs =>
    let next := s.step c
    if s.quote.isSome && next.quote.isSome then blankFrom next cs else c :: blankFrom next cs

/-- Leaves out the contents of strings. -/
def blankStrings (cs : List Char) : List Char := blankFrom {} cs

/-- The word a line starts with. -/
def firstWord (cs : List Char) : List Char := cs.takeWhile fun c => isAlphanumeric c || c == '_'

/-- Whether a keyword may follow this character. -/
def mayPrecede (c : Char) : Bool :=
  !(c.isAlphanum || c == '_' || c == '.' || c == ':' || c == '@' || c == '$')

/-- Whether this character may follow a keyword. -/
def mayFollow (c : Char) : Bool :=
  !(c.isAlphanum || c == '_' || c == '?' || c == '!' || c == ':')

/-- How often a keyword stands as a word of its own, where `prev` is the character before. Calls, symbols and keys of that name
do not count. -/
def countFrom (word : List Char) : Option Char → List Char → Nat
  | _, [] => 0
  | prev, c :: cs =>
    let here :=
      match after? word (c :: cs) with
      | some rest => prev.all mayPrecede && rest.head?.all mayFollow
      | none => false
    (if here then 1 else 0) + countFrom word (some c) cs

/-- How often a keyword stands as a word of its own. -/
def countWord (word : String) (cs : List Char) : Nat := countFrom word.toList none cs

/-- Whether no identifier character follows. -/
def atWordEnd (cs : List Char) : Bool := !cs.head?.any isWordChar

/-- What follows a whole word at the start. -/
def afterWord? (word : String) (cs : List Char) : Option (List Char) :=
  (after? word.toList cs).filter atWordEnd

/-- What follows at least one blank. -/
def afterBlanks? (cs : List Char) : Option (List Char) :=
  match cs with
  | c :: rest => if isBlank c then some (trimStart rest) else none
  | [] => none

/-- What follows a word and at least one blank. -/
def afterWordBlanks? (word : String) (cs : List Char) : Option (List Char) :=
  (after? word.toList cs).bind afterBlanks?

/-- Characters of a constant path after its first letter. -/
def isPathChar (c : Char) : Bool := isWordChar c || c == ':'

/-- A constant path that starts with a capital letter, and what follows it. -/
def plainPath? : List Char → Option (List Char × List Char)
  | [] => none
  | c :: cs =>
    if c.isUpper then some (c :: cs.takeWhile isPathChar, cs.dropWhile isPathChar) else none

/-- A constant path, absolute or not, and what follows it. -/
def constantPath? (cs : List Char) : Option (List Char × List Char) :=
  match cs with
  | ':' :: ':' :: rest => (plainPath? rest).map fun (path, following) => (':' :: ':' :: path, following)
  | _ => plainPath? cs

/-- A path without the marks of an absolute one. -/
def relativePath (path : List Char) : String := String.ofList (dropAllStart [':', ':'] path)

/-- Characters of operator methods. -/
def isOperatorChar (c : Char) : Bool := "-+*/%<>=!~^&|".toList.contains c

/-- The name of a method and what follows it: an identifier with an optional mark, an index operator, or a run of
operator characters. -/
def methodName? (cs : List Char) : Option (List Char × List Char) :=
  match cs with
  | [] => none
  | c :: rest =>
    if c.isAlpha || c == '_' then
      let word := c :: rest.takeWhile isWordChar
      match rest.dropWhile isWordChar with
      | '?' :: more => some (word ++ ['?'], more)
      | '!' :: more => some (word ++ ['!'], more)
      | '=' :: more => some (word ++ ['='], more)
      | more => some (word, more)
    else
      match cs with
      | '[' :: ']' :: '=' :: more => some (['[', ']', '='], more)
      | '[' :: ']' :: more => some (['[', ']'], more)
      | _ =>
        if isOperatorChar c then some (cs.takeWhile isOperatorChar, cs.dropWhile isOperatorChar) else none

/-- A line that opens a class, a module or a method. -/
inductive Heading where
  /-- The body of the class-level methods. -/
  | singleton
  | container (kind : SymbolKind) (declared : List Char) (superclass : Option (List Char))
  /-- A method with its own visibility if stated, whether it is defined on the class, its name, what follows
  the name, and its signature. -/
  | method (visibility : Option Visibility) (onSelf : Bool) (name tail signature : List Char)
deriving Repr, DecidableEq

namespace Heading

/-- A line that opens the class-level part of a class. -/
def isSingleton (code : List Char) : Bool :=
  match after? "class".toList code with
  | some rest =>
    match after? ['<', '<'] (trimStart rest) with
    | some rest => (afterWord? "self" (trimStart rest)).isSome
    | none => false
  | none => false

/-- The class after a less-than sign. -/
def superclass? (cs : List Char) : Option (List Char) :=
  match trimStart cs with
  | '<' :: rest => (constantPath? (trimStart rest)).map (·.1)
  | _ => none

/-- A line that opens a class. -/
def class? (raw : List Char) : Option Heading := do
  let rest ← afterWordBlanks? "class" raw
  let (path, following) ← constantPath? rest
  return .container .classDecl path (superclass? following)

/-- A line that opens a module. -/
def module? (raw : List Char) : Option Heading := do
  let rest ← afterWordBlanks? "module" raw
  let (path, _) ← constantPath? rest
  return .container .moduleDecl path none

/-- The name after `def`, on the class or not. -/
def definee? (cs : List Char) : Option (Bool × List Char × List Char) :=
  let onSelf := (after? Declaration.selfMark cs).bind methodName?
  match onSelf with
  | some (name, tail) => some (true, name, tail)
  | none => (methodName? cs).map fun (name, tail) => (false, name, tail)

/-- A method after its visibility. -/
def bareMethod? (visibility : Option Visibility) (signature : List Char) : Option Heading := do
  let rest ← afterWordBlanks? "def" signature
  let (onSelf, name, tail) ← definee? rest
  return .method visibility onSelf name tail signature

/-- A line that opens a method, with or without a visibility before it. -/
def method? (raw : List Char) : Option Heading :=
  match Visibility.all.findSome? fun v => (afterWordBlanks? v.name raw).map fun rest => (v, rest) with
  | some (v, rest) => bareMethod? (some v) rest
  | none => bareMethod? none raw

/-- The heading a line is. -/
def ofLine? (raw code : List Char) : Option Heading :=
  if isSingleton code then some .singleton else (class? raw).or <| (module? raw).or (method? raw)

end Heading

/-- Whether what follows the name makes a definition that is complete on its line. -/
def isEndless (tail : List Char) : Bool :=
  let isAssigned (cs : List Char) : Bool :=
    match cs with
    | '=' :: '=' :: _ => false
    | '=' :: _ => true
    | _ => false
  match trimStart tail with
  | '(' :: rest =>
    match splitFirst? ')' rest with
    | some (_, following) => isAssigned (trimStart following)
    | none => false
  | rest => isAssigned rest

/-- What may stand in a class body besides headings. -/
inductive Body where
  | visibility (v : Visibility)
  | association (word : AssociationWord) (arguments : List Char)
  | scope (name : List Char)
  | accessors (arguments : List Char)
  | attributeNamed (name : List Char)
  | constant (name : List Char)
  | mixin (extend : Bool) (arguments : List Char)
  | require (relative : Bool) (target : List Char)
deriving Repr, DecidableEq

namespace Body

/-- A visibility that holds for what follows. -/
def visibility? (code : List Char) : Option Body := (Visibility.ofName? (String.ofList code)).map .visibility

/-- The declaration of an association. -/
def association? (raw : List Char) : Option Body :=
  AssociationWord.all.findSome? fun word => (afterWord? word.name raw).map (.association word)

/-- A symbol: a colon and identifier characters. -/
def symbolName? : List Char → Option (List Char)
  | ':' :: cs =>
    let name := cs.takeWhile isWordChar
    if name.isEmpty then none else some name
  | _ => none

/-- The text without one opening parenthesis. -/
def dropParen : List Char → List Char
  | '(' :: cs => cs
  | cs => cs

/-- A named query. -/
def scope? (raw : List Char) : Option Body := do
  let rest ← after? "scope".toList raw
  let name ← symbolName? (trimStart (dropParen (trimStart rest)))
  return .scope name

/-- Generated accessors. -/
def accessors? (raw : List Char) : Option Body :=
  ["attr_reader", "attr_writer", "attr_accessor"].findSome? fun word =>
    (afterWord? word raw).map fun rest => .accessors (trimStart rest)

/-- A declared attribute. -/
def attribute? (raw : List Char) : Option Body := do
  let rest ← afterWordBlanks? "attribute" raw
  return .attributeNamed (← symbolName? rest)

/-- Characters of a constant in capitals. -/
def isConstantChar (c : Char) : Bool := c.isUpper || c.isDigit || c == '_'

/-- The assignment of a constant in capitals. -/
def constant? (raw : List Char) : Option Body :=
  match raw with
  | [] => none
  | c :: cs =>
    if c.isUpper then
      match trimStart (cs.dropWhile isConstantChar) with
      | '=' :: following =>
        if following.head?.any fun d => d == '=' || d == '~' || d == '>' then none
        else some (.constant (c :: cs.takeWhile isConstantChar))
      | _ => none
    else none

/-- Modules mixed in. -/
def mixin? (raw : List Char) : Option Body :=
  [("include", false), ("extend", true), ("prepend", false)].findSome? fun (word, extend) =>
    ((afterWordBlanks? word raw).filter (!·.isEmpty)).map (.mixin extend)

/-- The inside of quotes, which may hold no quote of either kind. -/
def quotedName? (cs : List Char) : Option (List Char) :=
  match cs with
  | q :: rest =>
    if Scan.isQuote q then
      let name := rest.takeWhile (!Scan.isQuote ·)
      if name.isEmpty || (rest.dropWhile (!Scan.isQuote ·)).isEmpty then none else some name
    else none
  | [] => none

/-- A file drawn in. -/
def require? (raw : List Char) : Option Body :=
  [("require_relative", true), ("require", false)].findSome? fun (word, relative) => do
    let rest ← afterWord? word raw
    let target ← quotedName? (trimStart (dropParen (trimStart rest)))
    return .require relative target

/-- The statement of a class body that a line is. -/
def ofLine? (raw code : List Char) : Option Body :=
  (visibility? code).or <| (association? raw).or <| (scope? raw).or <| (accessors? raw).or <|
    (attribute? raw).or <| (constant? raw).or <| (mixin? raw).or (require? raw)

end Body

/-- Words that open a block when they start a line. -/
def blockWords : List (List Char) :=
  ["if", "unless", "while", "until", "case", "begin", "for"].map String.toList

/-- Words of loops, whose `do` opens no second block. -/
def loopWords : List (List Char) := ["while", "until", "for"].map String.toList

/-- Words that open a block when their value is assigned. -/
def valueWords : List String := ["if", "unless", "case", "begin", "while", "until"]

/-- Whether the value of a block is assigned, where `prev` is the character before. -/
def assignsFrom : Option Char → List Char → Bool
  | _, [] => false
  | prev, c :: cs =>
    (c == '=' && prev.all (fun p => !(p == '=' || p == '!' || p == '<' || p == '>')) &&
      valueWords.any fun word => (afterWord? word (trimStart cs)).isSome) || assignsFrom (some c) cs

/-- Whether a line opens a block by its first word or by an assignment. -/
def opensBlock (code : List Char) : Bool :=
  blockWords.contains (firstWord code) || assignsFrom none code

/-- The word that ends the text block opened at the start. -/
def heredocHere? (cs : List Char) : Option (List Char) := do
  let rest ← after? ['<', '<'] cs
  let rest := match rest with
    | '~' :: more => more
    | '-' :: more => more
    | _ => rest
  let rest := match rest with
    | '"' :: more => more
    | '\'' :: more => more
    | _ => rest
  match rest with
  | c :: more =>
    if c.isUpper || c == '_' then some (c :: more.takeWhile fun d => d.isAlphanum || d == '_') else none
  | [] => none

/-- The word that ends the text block a line opens. -/
def heredoc? : List Char → Option (List Char)
  | [] => none
  | c :: cs => (heredocHere? (c :: cs)).or (heredoc? cs)

end CodeAtlas.Outline
