import CodeAtlas.Error
import CodeAtlas.Text.Utf8
/-!
# Patterns for paths

A pattern is read into a list of tokens and matched against the bytes of a path. A token takes a set of places on the path to the places that can be
reached from there, so a path matches if its end can be reached from its start by all tokens in turn. `?` and `*` stop at slashes, and two
stars between slashes stand for any number of directories.
-/

namespace CodeAtlas

namespace Glob

/-- One token of a pattern. -/
inductive Token where
  | literal (c : Char)
  /-- One byte that is no slash. -/
  | one
  /-- Any bytes that are no slashes. -/
  | many
  /-- Any directories at the start. -/
  | leading
  /-- A slash and anything after it. -/
  | trailing
  /-- A slash, and any directories after it. -/
  | between
  | oneOf (negated : Bool) (ranges : List (Char × Char))
  /-- One of several lists of tokens; without any it stands for nothing at all. -/
  | choice (alternatives : List (List Token))
deriving Repr, Inhabited

/-- The byte of a slash. -/
def slash : UInt8 := 0x2F

/-- The bytes of a character. -/
def bytesOf (c : Char) : List UInt8 := Text.encode (String.ofList [c])

/-- Whether a byte lies in a range of characters. A range is one of bytes: it runs from the last byte of its first character to the first
byte of its last, and the other bytes of the two count by themselves. -/
def inRange (b : UInt8) (range : Char × Char) : Bool :=
  let low := bytesOf range.1
  let high := bytesOf range.2
  if range.1 = range.2 then low.contains b
  else low.dropLast.contains b || (low.getLastD 0 ≤ b && b ≤ high.headD 0) || high.tail.contains b

/-- A set of places on a path: a mark for the start, and one after each byte. -/
abbrev Places := List Bool

namespace Places

/-- The start of a path. -/
def start (path : List UInt8) : Places := true :: path.map fun _ => false

/-- Whether the end of a path is among the places. -/
def reachesEnd (places : Places) : Bool := places.getLastD false

/-- The places of either set. -/
def union (a b : Places) : Places := List.zipWith (· || ·) a b

/-- The places one byte of a kind further on. -/
def step (kind : UInt8 → Bool) (path : List UInt8) (places : Places) : Places :=
  false :: List.zipWith (fun b here => kind b && here) path places

/-- The places any number of bytes of a kind further on, where `reached` says whether the first has been reached already. -/
def spread (kind : UInt8 → Bool) : Bool → List UInt8 → Places → Places
  | _, _, [] => []
  | reached, [], here :: _ => [reached || here]
  | reached, b :: path, here :: places =>
    (reached || here) :: spread kind ((reached || here) && kind b) path places

/-- The places after a slash, or after any later one. -/
def afterSlash (path : List UInt8) (places : Places) : Places :=
  step (· == slash) path (spread (fun _ => true) false path places)

end Places

mutual

/-- The places that a token leads to. -/
def Token.advance (path : List UInt8) (places : Places) : Token → Places
  | .literal c => (bytesOf c).foldl (fun places b => places.step (· == b) path) places
  | .one => places.step (· != slash) path
  | .many => places.spread (· != slash) false path
  | .leading => places.union (places.afterSlash path)
  | .trailing => (places.step (· == slash) path).spread (fun _ => true) false path
  | .between =>
    let next := places.step (· == slash) path
    next.union (next.afterSlash path)
  | .oneOf negated ranges => places.step (fun b => ranges.any (inRange b) != negated) path
  | .choice [] => places
  | .choice (first :: others) => advanceAny path places (advance path places first) others

/-- The places that tokens lead to in turn; from no place they lead nowhere. -/
def advance (path : List UInt8) (places : Places) : List Token → Places
  | [] => places
  | t :: ts => if places.contains true then advance path (t.advance path places) ts else places

/-- The places that one of several lists of tokens leads to, beside those `reached` by others. -/
def advanceAny (path : List UInt8) (places reached : Places) : List (List Token) → Places
  | [] => reached
  | tokens :: rest => advanceAny path places (reached.union (advance path places tokens)) rest

end

/-- Whether tokens match a path. -/
def matchTokens (tokens : List Token) (path : List UInt8) : Bool :=
  (advance path (Places.start path) tokens).reachesEnd

/-- Whether a token stands for nothing at all. -/
def Token.isVoid : Token → Bool
  | .choice [] => true
  | _ => false

/-- A choice between lists of tokens. Those that stand for nothing at all do not count. -/
def Token.oneOfLists (choices : List (List Token)) : Token := .choice (choices.filter fun tokens => !tokens.all isVoid)

/-- An open group: the tokens it follows, the last of them first, and its finished choices. -/
structure Group where
  outer : List Token
  done : List (List Token)
deriving Inhabited

/-- The state of reading: the tokens so far, the last of them first, the open groups, the character just read, and whether an opening bracket
counts as itself. -/
structure Reading where
  tokens : List Token := []
  groups : List Group := []
  prev : Option Char := none
  literalBrackets : Bool := false
deriving Inhabited

/-- Adds a range to the ranges of a class, latest first. -/
def closeRange : List (Char × Char) → Char → Except PatternFault (List (Char × Char))
  | (low, _) :: rest, high => if high < low then .error (.badRange low high) else .ok ((low, high) :: rest)
  | [], _ => .error .unclosedClass

/-- The ranges of a class up to its closing bracket, and what follows. -/
def classRest : Bool → Bool → List (Char × Char) → List Char →
    Except PatternFault (List (Char × Char) × List Char)
  | _, _, _, [] => .error .unclosedClass
  | first, inRange, ranges, c :: cs =>
    if c = ']' && !first then .ok (if inRange then ('-', '-') :: ranges else ranges, cs)
    else if c = '-' && !first && !inRange then classRest false true ranges cs
    else if inRange then
      match closeRange ranges c with
      | .ok ranges => classRest false false ranges cs
      | .error e => .error e
    else classRest false false ((c, c) :: ranges) cs

/-- Reads the class after an opening bracket. -/
def readClass (cs : List Char) : Except PatternFault (Bool × List (Char × Char) × List Char) :=
  let (negated, body) := match cs with
    | '!' :: rest => (true, rest)
    | '^' :: rest => (true, rest)
    | _ => (false, cs)
  (classRest true false [] body).map fun (ranges, rest) => (negated, ranges, rest)

/-- Reads two stars. Gives the state and what follows. -/
def readStars (r : Reading) (rest : List Char) : Reading × List Char :=
  let two := { r with tokens := .many :: .many :: r.tokens }
  if r.tokens.isEmpty then
    match rest with
    | [] => ({ r with tokens := [.leading] }, [])
    | '/' :: more => ({ r with tokens := [.leading] }, more)
    | _ => (two, rest)
  else if r.prev != some '/' && (r.groups.isEmpty || (r.prev != some ',' && r.prev != some '\x7b')) then (two, rest)
  else
    let close (t : Token) : Reading :=
      match r.tokens with
      | .leading :: _ => r
      | .trailing :: _ => r
      | tokens => { r with tokens := t :: tokens.tail }
    match rest with
    | [] => (close .trailing, [])
    | c :: more =>
      if c = '/' then (close .between, more)
      else if !r.groups.isEmpty && (c = ',' || c = '\x7d') then (close .trailing, rest)
      else (two, rest)

/-- Reads a pattern. `fuel` bounds the steps, each of which reads a character. An unclosed class is refused, or its bracket counts as
itself. -/
def read (lenient : Bool) : Nat → Reading → List Char → Except PatternFault Reading
  | 0, r, _ => .ok r
  | _, r, [] => .ok r
  | fuel + 1, r, c :: cs =>
    let push (t : Token) : Reading := { r with tokens := t :: r.tokens, prev := some c }
    if c = '?' then read lenient fuel (push .one) cs
    else if c = '*' then
      match cs with
      | '*' :: rest =>
        let (next, following) := readStars r rest
        let last := if following.length < rest.length then some '/' else some '*'
        read lenient fuel { next with prev := last } following
      | _ => read lenient fuel (push .many) cs
    else if c = '[' && !r.literalBrackets then
      match readClass cs with
      | .ok (negated, ranges, rest) =>
        let next := push (.oneOf negated ranges)
        read lenient fuel { next with prev := some ']' } rest
      | .error e =>
        if lenient && e = .unclosedClass then
          read lenient fuel { push (.literal '[') with literalBrackets := true } cs
        else .error e
    else if c = '\x7b' then
      read lenient fuel { r with tokens := [], groups := ⟨r.tokens, []⟩ :: r.groups, prev := some c } cs
    else if c = '\x7d' then
      match r.groups with
      | [] => .error .unopenedGroup
      | g :: groups =>
        read lenient fuel
          { r with
            tokens := .oneOfLists (g.done ++ [r.tokens.reverse]) :: g.outer, groups := groups, prev := some c } cs
    else if c = ',' then
      match r.groups with
      | [] => read lenient fuel (push (.literal ',')) cs
      | g :: groups =>
        read lenient fuel
          { r with
            tokens := [], groups := { g with done := g.done ++ [r.tokens.reverse] } :: groups, prev := some c } cs
    else if c = '\\' then
      match cs with
      | [] => .error .danglingEscape
      | d :: rest => read lenient fuel { push (.literal d) with prev := some d } rest
    else read lenient fuel (push (.literal c)) cs

end Glob

/-- A pattern: the tokens that match one after another. -/
structure Glob where
  tokens : List Glob.Token
deriving Repr, Inhabited

namespace Glob

/-- Reads a pattern; every group must be closed. -/
def ofText (lenient : Bool) (text : List Char) : Except PatternFault Glob :=
  match read lenient text.length {} text with
  | .ok r => if r.groups.isEmpty then .ok ⟨r.tokens.reverse⟩ else .error .unclosedGroup
  | .error e => .error e

/-- Whether a pattern matches a path. Two stars alone match everything. -/
def covers (g : Glob) (path : String) : Bool :=
  match g.tokens with
  | [.leading] => true
  | tokens => matchTokens tokens (Text.encode path)

end Glob

end CodeAtlas
