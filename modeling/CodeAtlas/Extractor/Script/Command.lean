import CodeAtlas.Extractor.Script.Token
/-!
# Commands of scripts

A simple command is a list of words; commands are joined by marks and by reserved words. A script is read line by line: what stands before a line
that makes no sense is run before the fault is found (`parse`).
-/

namespace CodeAtlas

namespace Script

/-- An arrow with what it points to. -/
inductive Redirection where
  | arrow (stream : Nat) (arrow : Arrow) (target : Word)
  | document (body : Word)
deriving Repr, DecidableEq, Inhabited

/-- A command. Each arm of a choice has patterns and a command. -/
inductive Command where
  | nothing
  | simple (line : Nat) (words : List Word) (redirections : List Redirection)
  | redirected (line : Nat) (body : Command) (redirections : List Redirection)
  | negated (body : Command)
  | piped (first second : Command)
  | followed (first second : Command)
  | onSuccess (first second : Command)
  | onFailure (first second : Command)
  | aside (body : Command)
  | apart (body : Command)
  | branch (condition yes no : Command)
  | loop (stopsOnSuccess : Bool) (condition body : Command)
  | each (line : Nat) (name : String) (words : List Word) (body : Command)
  | choice (line : Nat) (subject : Word) (arms : List (List Word × Command))
  | define (name : String) (body : Command)
deriving Inhabited

/-- One command after another. -/
def Command.andThen : Command → Command → Command
  | .nothing, second => second
  | first, second => .followed first second

/-- A command with its arrows, if it has any. -/
def Command.withRedirections (line : Nat) (body : Command) : List Redirection → Command
  | [] => body
  | redirections => .redirected line body redirections

/-- A fault and the line where it was found. -/
structure Fault where
  line : Nat
  nonsense : Nonsense
deriving Repr, DecidableEq, Inhabited

/-- The next token; there is always one. -/
def next (ls : List Lexeme) : Lexeme := ls.headD ⟨1, .ending⟩

/-- The fault that the next token is not wanted here. -/
def unexpected (ls : List Lexeme) (wanted : Option String) : Fault :=
  let l := next ls
  ⟨l.line, match l.token with
    | .broken fault => fault
    | token => .unexpected token.describe wanted⟩

/-- Whether a mark is next. -/
def isMark (text : String) (ls : List Lexeme) : Bool := (next ls).token = .mark text

/-- Whether a reserved word is next. -/
def isReserved (text : String) (ls : List Lexeme) : Bool := (next ls).token.reserved? = some text

/-- Passes over line ends. -/
def skipLines : List Lexeme → List Lexeme
  | l :: rest => if l.token = .mark "\n" then skipLines rest else l :: rest
  | [] => []

/-- What follows a reserved word, which has to be next. -/
def expectWord (text : String) (ls : List Lexeme) : Except Fault (List Lexeme) :=
  if isReserved text ls then .ok (ls.drop 1) else .error (unexpected ls (some ("\"" ++ text ++ "\"")))

/-- What follows a mark, which has to be next. -/
def expectMark (text : String) (ls : List Lexeme) : Except Fault (List Lexeme) :=
  if isMark text ls then .ok (ls.drop 1) else .error (unexpected ls (some ("\"" ++ text ++ "\"")))

/-- Whether the next token ends a list of commands. -/
def endsList (ls : List Lexeme) : Bool :=
  isMark ")" ls || isMark ";;" ls || (["do", "done", "elif", "else", "esac", "fi", "then", "\x7d"].any fun text => isReserved text ls)

/-- The words and arrows of a simple command. -/
def simpleParts : List Lexeme → Except Fault (List Word × List Redirection × List Lexeme)
  | ⟨_, .word word⟩ :: rest => do
    let (words, redirections, rest) ← simpleParts rest
    return (word :: words, redirections, rest)
  | ⟨_, .arrow stream arrow⟩ :: ⟨_, .word target⟩ :: rest => do
    let (words, redirections, rest) ← simpleParts rest
    return (words, .arrow stream arrow target :: redirections, rest)
  | ⟨_, .arrow _ _⟩ :: rest => .error (unexpected rest none)
  | ⟨_, .document body⟩ :: rest => do
    let (words, redirections, rest) ← simpleParts rest
    return (words, .document body :: redirections, rest)
  | rest => .ok ([], [], rest)

/-- The arrows after a command. -/
def arrowsAfter : List Lexeme → Except Fault (List Redirection × List Lexeme)
  | ⟨_, .arrow stream arrow⟩ :: ⟨_, .word target⟩ :: rest =>
    (arrowsAfter rest).map fun (more, rest) => (.arrow stream arrow target :: more, rest)
  | ⟨_, .arrow _ _⟩ :: rest => .error (unexpected rest none)
  | ⟨_, .document body⟩ :: rest => (arrowsAfter rest).map fun (more, rest) => (.document body :: more, rest)
  | rest => .ok ([], rest)

/-- Words one after another. -/
def wordsAt : List Lexeme → List Word × List Lexeme
  | ⟨_, .word word⟩ :: rest =>
    let (words, rest) := wordsAt rest
    (word :: words, rest)
  | rest => ([], rest)

/-- The patterns of an arm. -/
def patternsAt : List Lexeme → Except Fault (List Word × List Lexeme)
  | ⟨_, .word word⟩ :: ⟨_, .mark "|"⟩ :: rest => (patternsAt rest).map fun (more, rest) => (word :: more, rest)
  | ⟨_, .word word⟩ :: rest => .ok ([word], rest)
  | rest => .error (unexpected rest (some "\")\""))

/-- All parameters, each a word. -/
def allParameters : Word := [.parameter ['@'] true]

mutual

/-- The commands of a list, up to a token that ends it. `begun` tells whether the list may end. -/
def listAt : Nat → Command → Bool → List Lexeme → Except Fault (Command × List Lexeme)
  | 0, before, _, ls => .ok (before, ls)
  | fuel + 1, before, begun, ls => do
    let ls := skipLines ls
    if (next ls).token = .ending || (begun && endsList ls) then return (before, ls)
    let (c, rest) ← linkedAt fuel ls
    if isMark "&" rest then listAt fuel (before.andThen (.aside c)) true (rest.drop 1)
    else if isMark ";" rest then listAt fuel (before.andThen c) true (rest.drop 1)
    else if isMark "\n" rest || (next rest).token = .ending then listAt fuel (before.andThen c) true rest
    else return (before.andThen c, rest)

/-- Commands of which each runs by how those before ended. -/
def linkedAt : Nat → List Lexeme → Except Fault (Command × List Lexeme)
  | 0, ls => .ok (.nothing, ls)
  | fuel + 1, ls => do
    let (first, rest) ← pipelineAt fuel ls
    linksAfter fuel first rest

/-- The commands that are linked to one. -/
def linksAfter : Nat → Command → List Lexeme → Except Fault (Command × List Lexeme)
  | 0, first, ls => .ok (first, ls)
  | fuel + 1, first, ls => do
    if isMark "&&" ls then
      let (second, rest) ← pipelineAt fuel (skipLines (ls.drop 1))
      linksAfter fuel (.onSuccess first second) rest
    else if isMark "||" ls then
      let (second, rest) ← pipelineAt fuel (skipLines (ls.drop 1))
      linksAfter fuel (.onFailure first second) rest
    else return (first, ls)

/-- Commands that hand their output on, perhaps with success and failure exchanged. -/
def pipelineAt : Nat → List Lexeme → Except Fault (Command × List Lexeme)
  | 0, ls => .ok (.nothing, ls)
  | fuel + 1, ls => do
    if isReserved "!" ls then
      let (first, rest) ← commandAt fuel (ls.drop 1)
      let (all, rest) ← pipesAfter fuel first rest
      return (.negated all, rest)
    else
      let (first, rest) ← commandAt fuel ls
      pipesAfter fuel first rest

/-- The commands to which one hands its output. -/
def pipesAfter : Nat → Command → List Lexeme → Except Fault (Command × List Lexeme)
  | 0, first, ls => .ok (first, ls)
  | fuel + 1, first, ls => do
    if isMark "|" ls then
      let (second, rest) ← commandAt fuel (skipLines (ls.drop 1))
      pipesAfter fuel (.piped first second) rest
    else return (first, ls)

/-- A command with its arrows. -/
def commandAt : Nat → List Lexeme → Except Fault (Command × List Lexeme)
  | 0, ls => .ok (.nothing, ls)
  | fuel + 1, ls => do
    let line := (next ls).line
    let closed (body : Command) (rest : List Lexeme) : Except Fault (Command × List Lexeme) := do
      let (redirections, rest) ← arrowsAfter rest
      return (body.withRedirections line redirections, rest)
    if isMark "(" ls then
      let (body, rest) ← listAt fuel .nothing false (ls.drop 1)
      closed (.apart body) (← expectMark ")" rest)
    else
      match (next ls).token.reserved? with
      | some "\x7b" =>
        let (body, rest) ← listAt fuel .nothing false (ls.drop 1)
        closed body (← expectWord "\x7d" rest)
      | some "if" =>
        let (body, rest) ← branchAt fuel (ls.drop 1)
        closed body rest
      | some "while" =>
        let (condition, rest) ← listAt fuel .nothing false (ls.drop 1)
        let (body, rest) ← listAt fuel .nothing false (← expectWord "do" rest)
        closed (.loop false condition body) (← expectWord "done" rest)
      | some "until" =>
        let (condition, rest) ← listAt fuel .nothing false (ls.drop 1)
        let (body, rest) ← listAt fuel .nothing false (← expectWord "do" rest)
        closed (.loop true condition body) (← expectWord "done" rest)
      | some "for" =>
        let rest := ls.drop 1
        let name? := match (next rest).token with
          | .word word => word.plain?.filter isName
          | _ => none
        match name? with
        | none => .error ⟨(next rest).line, .badLoopVariable⟩
        | some name =>
          let rest := skipLines (rest.drop 1)
          let (words, rest) ←
            if isReserved "in" rest then
              let (words, rest) := wordsAt (rest.drop 1)
              if isMark ";" rest || isMark "\n" rest then pure (words, rest.drop 1) else .error (unexpected rest none)
            else pure ([allParameters], if isMark ";" rest then rest.drop 1 else rest)
          let (body, rest) ← listAt fuel .nothing false (← expectWord "do" (skipLines rest))
          closed (.each line (String.ofList name) words body) (← expectWord "done" rest)
      | some "case" =>
        match ls.drop 1 with
        | ⟨_, .word subject⟩ :: rest =>
          let rest ← expectWord "in" (skipLines rest)
          let (arms, rest) ← armsAt fuel (skipLines rest)
          closed (.choice line subject arms) rest
        | rest => .error (unexpected rest (some "word"))
      | some _ => .error (unexpected ls none)
      | none =>
        let (words, redirections, rest) ← simpleParts ls
        if words.isEmpty && redirections.isEmpty then .error (unexpected ls none)
        else if isMark "(" rest && words.length = 1 && redirections.isEmpty then
          let rest ← expectMark ")" (rest.drop 1)
          match ((words.headD []).plain?).filter isName with
          | none => .error ⟨(next rest).line, .badFunctionName⟩
          | some name =>
            let (body, rest) ← commandAt fuel (skipLines rest)
            return (.define (String.ofList name) body, rest)
        else return (.simple line words redirections, rest)

/-- A condition, what is done if it holds, and what is done otherwise. -/
def branchAt : Nat → List Lexeme → Except Fault (Command × List Lexeme)
  | 0, ls => .ok (.nothing, ls)
  | fuel + 1, ls => do
    let (condition, rest) ← listAt fuel .nothing false ls
    let (yes, rest) ← listAt fuel .nothing false (← expectWord "then" rest)
    if isReserved "elif" rest then
      let (no, rest) ← branchAt fuel (rest.drop 1)
      return (.branch condition yes no, rest)
    else if isReserved "else" rest then
      let (no, rest) ← listAt fuel .nothing false (rest.drop 1)
      return (.branch condition yes no, ← expectWord "fi" rest)
    else return (.branch condition yes .nothing, ← expectWord "fi" rest)

/-- The arms of a choice, up to its end. -/
def armsAt : Nat → List Lexeme → Except Fault (List (List Word × Command) × List Lexeme)
  | 0, ls => .ok ([], ls)
  | fuel + 1, ls => do
    if isReserved "esac" ls then return ([], ls.drop 1)
    let (patterns, rest) ← patternsAt (if isMark "(" ls then ls.drop 1 else ls)
    let (body, rest) ← listAt fuel .nothing true (← expectMark ")" rest)
    if isReserved "esac" rest then return ([(patterns, body)], rest.drop 1)
    let (more, rest) ← armsAt fuel (skipLines (← expectMark ";;" rest))
    return ((patterns, body) :: more, rest)

end

/-- The commands on one line. -/
def lineAt (fuel : Nat) : Nat → Command → List Lexeme → Except Fault (Command × List Lexeme)
  | 0, before, ls => .ok (before, ls)
  | rounds + 1, before, ls => do
    if isMark "\n" ls then return (before, ls.drop 1)
    if (next ls).token = .ending then return (before, ls)
    let (c, rest) ← linkedAt fuel ls
    if isMark "&" rest then lineAt fuel rounds (before.andThen (.aside c)) (rest.drop 1)
    else if isMark ";" rest then lineAt fuel rounds (before.andThen c) (rest.drop 1)
    else if isMark "\n" rest || (next rest).token = .ending then lineAt fuel rounds (before.andThen c) rest
    else .error (unexpected rest none)

/-- The lines of a script, up to the first fault. -/
def linesAt (fuel : Nat) : Nat → List Lexeme → List Command × Option Fault
  | 0, _ => ([], none)
  | rounds + 1, ls =>
    if (next ls).token = .ending then ([], none)
    else
      match lineAt fuel fuel .nothing ls with
      | .error fault => ([], some fault)
      | .ok (c, rest) =>
        let (more, fault) := linesAt fuel rounds rest
        (c :: more, fault)

/-- The commands of a script line by line, and the fault that ends it, if there is one. Reading a token goes through at most eight rules. -/
def parse (text : List Char) : List Command × Option Fault :=
  let tokens := lex text
  linesAt (8 * (tokens.length + 1)) (tokens.length + 1) tokens

end Script

end CodeAtlas
