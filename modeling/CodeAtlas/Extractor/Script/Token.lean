import CodeAtlas.Text.Basic
/-!
# Words and tokens of scripts

A script is a list of words and marks. A word is made of pieces: characters, and what stands after a dollar sign, whose value is not known before the
script runs. Quotes keep blanks and marks inside a word. A document is an input that is written down in the script, line by line, after the line that asks for it.

`pieces` reads one word and `lexFrom` all tokens. Every list of tokens closes with the end of the script or with the fault that cut it short.
-/

namespace CodeAtlas

namespace Script

/-- Why a script makes no sense: a token where another was wanted, or something that is not closed. -/
inductive Nonsense where
  | unexpected (found : String) (wanted : Option String)
  | openQuote
  | openBackquote
  | openBrace
  | badLoopVariable
  | badFunctionName
deriving Repr, DecidableEq, Inhabited

/-- The fault in words. -/
def Nonsense.describe : Nonsense → String
  | .unexpected found wanted =>
    found ++ " unexpected" ++ (wanted.map fun w => " (expecting " ++ w ++ ")").getD ""
  | .openQuote => "Unterminated quoted string"
  | .openBackquote => "EOF in backquote substitution"
  | .openBrace => "Missing '\x7d'"
  | .badLoopVariable => "Bad for loop variable"
  | .badFunctionName => "Bad function name"

/-- A piece of a word. Values that are not quoted are split at blanks. -/
inductive Piece where
  | text (cs : List Char) (quoted : Bool)
  /-- A parameter or variable, with what is to be done to its value. -/
  | parameter (use : List Char) (quoted : Bool)
  /-- What a script prints. -/
  | output (script : List Char) (quoted : Bool)
  /-- The value of an expression. -/
  | sum (expression : List Char) (quoted : Bool)
deriving Repr, DecidableEq, Inhabited

/-- A word of a script. -/
abbrev Word := List Piece

/-- The characters of a word that is plainly written, without quotes and values. -/
def Word.plain? : Word → Option (List Char)
  | [] => some []
  | .text cs false :: rest => (Word.plain? rest).map (cs ++ ·)
  | _ => none

/-- How characters are read. -/
inductive Quoting where
  | plain
  | single
  | double
  /-- Inside a document, where quotes mean nothing. -/
  | document
deriving Repr, DecidableEq, Inhabited

/-- Characters that end a word. -/
def endsWord (c : Char) : Bool := " \t\n;&|()<>".toList.contains c

/-- Characters that mean something inside a word. -/
def isActive (c : Char) : Bool := "'\"\\$`".toList.contains c

/-- Parameters whose name is one character that is no letter. -/
def isSpecialName (c : Char) : Bool := c.isDigit || "?#$@*!-".toList.contains c

/-- Characters of the names of variables. -/
def isNameChar (c : Char) : Bool := c.isAlphanum || c = '_'

/-- Whether characters are the name of a variable. -/
def isName (cs : List Char) : Bool := !cs.isEmpty && cs.all isNameChar && !cs.head?.any Char.isDigit

/-- What stands before the bracket that closes, and what stands after it. Brackets in quotes do not count. -/
def enclosed? (opening closing : Char) : Nat → Quoting → List Char → Option (List Char × List Char)
  | _, _, [] => none
  | depth, quoting, '\\' :: c :: rest =>
    if quoting = .single then (enclosed? opening closing depth (if c = '\'' then .plain else quoting) rest).map fun (a, b) => ('\\' :: c :: a, b)
    else (enclosed? opening closing depth quoting rest).map fun (a, b) => ('\\' :: c :: a, b)
  | depth, quoting, c :: rest =>
    let onward (depth : Nat) (quoting : Quoting) : Option (List Char × List Char) :=
      (enclosed? opening closing depth quoting rest).map fun (a, b) => (c :: a, b)
    match quoting with
    | .plain =>
      if c = closing then if depth = 0 then some ([], rest) else onward (depth - 1) .plain
      else if c = opening then onward (depth + 1) .plain
      else onward depth (if c = '\'' then .single else if c = '"' then .double else .plain)
    | .single => onward depth (if c = '\'' then .plain else .single)
    | .double => onward depth (if c = '"' then .plain else .double)
    | .document => onward depth .document

/-- The script before the next backquote, and what stands after it. A backslash keeps a backquote from closing it. -/
def backquoted? : List Char → Option (List Char × List Char)
  | [] => none
  | ['\\'] => none
  | '\\' :: c :: rest =>
    let kept := if c = '`' || c = '\\' || c = '$' then [c] else ['\\', c]
    (backquoted? rest).map fun (a, b) => (kept ++ a, b)
  | c :: rest => if c = '`' then some ([], rest) else (backquoted? rest).map fun (a, b) => (c :: a, b)

/-- The expression between doubled parentheses. -/
def expression? : List Char → Option (List Char)
  | '(' :: rest => if rest.getLast? = some ')' then some rest.dropLast else none
  | _ => none

/-- What a dollar sign begins, and what follows it; the sign stands for itself before any other character. -/
def dollar (quoted : Bool) : List Char → Except Nonsense (Piece × List Char)
  | '(' :: rest =>
    match enclosed? '(' ')' 0 .plain rest with
    | none => .error (.unexpected "end of file" (some "\")\""))
    | some (inside, rest) =>
      match expression? inside with
      | some e => .ok (.sum e quoted, rest)
      | none => .ok (.output inside quoted, rest)
  | '\x7b' :: rest =>
    match enclosed? '\x7b' '\x7d' 0 .plain rest with
    | none => .error .openBrace
    | some (use, rest) => .ok (.parameter use quoted, rest)
  | c :: rest =>
    if isSpecialName c then .ok (.parameter [c] quoted, rest)
    else if isNameChar c then .ok (.parameter (c :: rest.takeWhile isNameChar) quoted, rest.dropWhile isNameChar)
    else .ok (.text ['$'] quoted, c :: rest)
  | [] => .ok (.text ['$'] quoted, [])

/-- The pieces of a word, and what follows it. A word that is `whole` runs on to the end. `fuel` bounds the pieces. -/
def pieces (whole : Bool) : Nat → Quoting → List Char → Except Nonsense (Word × List Char)
  | 0, _, cs => .ok ([], cs)
  | fuel + 1, quoting, cs =>
    let onward (quoting : Quoting) (piece : Piece) (rest : List Char) : Except Nonsense (Word × List Char) :=
      (pieces whole fuel quoting rest).map fun (word, rest) => (piece :: word, rest)
    let quoted := quoting ≠ .plain
    match quoting, cs with
    | .plain, [] => .ok ([], [])
    | .document, [] => .ok ([], [])
    | _, [] => .error .openQuote
    | .single, '\'' :: rest => pieces whole fuel .plain rest
    | .single, cs => onward .single (.text (cs.takeWhile (· ≠ '\'')) true) (cs.dropWhile (· ≠ '\''))
    | .double, '"' :: rest => pieces whole fuel .plain rest
    | .plain, '\'' :: rest => onward .single (.text [] true) rest
    | .plain, '"' :: rest => onward .double (.text [] true) rest
    | _, '$' :: rest => do
      let (piece, rest) ← dollar quoted rest
      onward quoting piece rest
    | _, '`' :: rest =>
      match backquoted? rest with
      | some (script, rest) => onward quoting (.output script quoted) rest
      | none => .error .openBackquote
    | _, '\\' :: '\n' :: rest => pieces whole fuel quoting rest
    | .plain, '\\' :: c :: rest => onward .plain (.text [c] true) rest
    | _, '\\' :: c :: rest =>
      let isKept := c = '\\' || c = '$' || c = '`' || (c = '"' && quoting = .double)
      onward quoting (.text (if isKept then [c] else ['\\', c]) true) rest
    | .plain, c :: rest =>
      if !whole && endsWord c then .ok ([], cs)
      else
        let more := rest.takeWhile fun c => !isActive c && (whole || !endsWord c)
        onward .plain (.text (c :: more) false) (rest.drop more.length)
    | quoting, c :: rest =>
      let more := rest.takeWhile fun c => !isActive c
      onward quoting (.text (c :: more) true) (rest.drop more.length)

/-- The pieces of a text that is all one word. -/
def wholeWord (quoting : Quoting) (cs : List Char) : Word :=
  match pieces true (cs.length + 1) quoting cs with
  | .ok (word, _) => word
  | .error _ => [.text cs true]

/-- Where an arrow points: to a file from which input comes, to one to which output goes, or to another stream. -/
inductive Arrow where
  | input
  | output
  | joined
deriving Repr, DecidableEq, Inhabited

/-- A token of a script. -/
inductive Token where
  | word (pieces : Word)
  | mark (text : String)
  | arrow (stream : Nat) (kind : Arrow)
  | document (body : Word)
  | broken (fault : Nonsense)
  | ending
deriving Repr, DecidableEq, Inhabited

/-- A token and the line on which it ends. -/
structure Lexeme where
  line : Nat
  token : Token
deriving Repr, DecidableEq, Inhabited

/-- The words that begin, part and end commands. -/
def reservedWords : List String :=
  ["!", "case", "do", "done", "elif", "else", "esac", "fi", "for", "if", "in", "then", "until", "while", "\x7b", "\x7d"]

/-- The reserved word that a token is. -/
def Token.reserved? : Token → Option String
  | .word pieces => (Word.plain? pieces |>.map String.ofList).filter reservedWords.contains
  | _ => none

/-- What a token is called. -/
def Token.describe (token : Token) : String :=
  match token with
  | .word _ => (token.reserved?.map fun text => "\"" ++ text ++ "\"").getD "word"
  | .mark text => if text = "\n" then "newline" else "\"" ++ text ++ "\""
  | .arrow _ _ => "redirection"
  | .document _ => "redirection"
  | .broken _ => "end of file"
  | .ending => "end of file"

/-- The marks of two characters. -/
def doubleMarks : List String := ["&&", "||", ";;"]

/-- How many lines end in the first list before the second begins. -/
def linesBetween (cs rest : List Char) : Nat := (cs.take (cs.length - rest.length)).count '\n'

/-- The lines of a document up to the one that closes it, and what follows that line, if there is one. -/
def documentLines (closing : List Char) (dropTabs : Bool) : List (List Char) → List (List Char) × Option (List (List Char))
  | [] => ([], none)
  | line :: rest =>
    let line := if dropTabs then line.dropWhile (· = '\t') else line
    if line = closing then ([], some rest)
    else
      let (body, rest) := documentLines closing dropTabs rest
      (line :: body, rest)

/-- A document that is asked for: its text, how many lines it takes, and the script without it. -/
def document? (cs : List Char) : Except Nonsense (Word × Nat × List Char) := do
  let dropTabs := cs.head? = some '-'
  let cs := (if dropTabs then cs.drop 1 else cs).dropWhile fun c => c = ' ' || c = '\t'
  let (name, rest) ← pieces false (cs.length + 1) .plain cs
  let closing := name.flatMap fun
    | .text cs _ => cs
    | _ => []
  let isQuoted := name.any fun
    | .text _ quoted => quoted
    | _ => false
  let line := rest.takeWhile (· ≠ '\n')
  let below := (rest.dropWhile (· ≠ '\n')).drop 1
  let (body, after?) := documentLines closing dropTabs (Text.splitOn '\n' below)
  let text := Text.joinWith ['\n'] body
  let text := if after?.isSome && !body.isEmpty then text ++ ['\n'] else text
  let lines := if after?.isSome then body.length + 1 else body.length - 1
  let rest := match after? with
    | some after => line ++ '\n' :: Text.joinWith ['\n'] after
    | none => if rest.contains '\n' then line ++ ['\n'] else line
  return (if isQuoted then [.text text true] else wholeWord .document text, lines, rest)

/-- The stream before an arrow, and the arrow and what follows it. -/
def streamBefore? : List Char → Option (Option Nat × Char × List Char)
  | c :: d :: rest =>
    if c = '<' || c = '>' then some (none, c, d :: rest)
    else if c.isDigit && (d = '<' || d = '>') then some (some (c.toNat - '0'.toNat), d, rest)
    else none
  | [c] => if c = '<' || c = '>' then some (none, c, []) else none
  | [] => none

/-- Where an arrow points, and what follows it. -/
def arrowAfter (c : Char) (rest : List Char) : Arrow × List Char :=
  match rest with
  | '&' :: rest => (.joined, rest)
  | '>' :: rest => (if c = '<' then .input else .output, rest)
  | '|' :: more => if c = '>' then (.output, more) else (.input, rest)
  | _ => (if c = '<' then .input else .output, rest)

/-- The tokens of a script from a line on. `fuel` bounds the tokens and blanks. -/
def lexFrom : Nat → Nat → List Char → List Lexeme
  | 0, line, _ => [⟨line, .ending⟩]
  | _, line, [] => [⟨line, .ending⟩]
  | fuel + 1, line, '\\' :: '\n' :: cs => lexFrom fuel (line + 1) cs
  | fuel + 1, line, c :: cs =>
    if c = ' ' || c = '\t' then lexFrom fuel line cs
    else if c = '\n' then ⟨line + 1, .mark "\n"⟩ :: lexFrom fuel (line + 1) cs
    else if c = '#' then lexFrom fuel line (cs.dropWhile (· ≠ '\n'))
    else
      match streamBefore? (c :: cs) with
      | some (stream, '<', '<' :: rest) =>
        match document? rest with
        | .ok (body, lines, rest) =>
          if stream.getD 0 = 0 then ⟨line, .document body⟩ :: lexFrom fuel (line + lines) rest else lexFrom fuel (line + lines) rest
        | .error fault => [⟨line, .broken fault⟩]
      | some (stream, c, rest) =>
        let (arrow, rest) := arrowAfter c rest
        ⟨line, .arrow (stream.getD (if c = '<' then 0 else 1)) arrow⟩ :: lexFrom fuel line rest
      | none =>
        let two := String.ofList (c :: cs.take 1)
        if doubleMarks.contains two then ⟨line, .mark two⟩ :: lexFrom fuel line (cs.drop 1)
        else if endsWord c then ⟨line, .mark (String.ofList [c])⟩ :: lexFrom fuel line cs
        else
          match pieces false (cs.length + 2) .plain (c :: cs) with
          | .ok (word, rest) =>
            let line := line + linesBetween (c :: cs) rest
            ⟨line, .word word⟩ :: lexFrom fuel line rest
          | .error fault => [⟨line + cs.count '\n', .broken fault⟩]

/-- The tokens of a script. -/
def lex (cs : List Char) : List Lexeme := lexFrom (cs.length + 1) 1 cs

end Script

end CodeAtlas
