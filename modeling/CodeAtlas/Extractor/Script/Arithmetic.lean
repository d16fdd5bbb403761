import CodeAtlas.Number.Digits
import CodeAtlas.Text.Basic
/-!
# Expressions of scripts

Numbers, names of variables, signs, and operators between them, of which some bind closer than others. Numbers wrap around at 64 bits.
-/

namespace CodeAtlas

namespace Script

namespace Arithmetic

/-- The operators, those that bind least first. -/
def levels : List (List String) :=
  [["||"], ["&&"], ["|"], ["^"], ["&"], ["==", "!="], ["<=", ">=", "<", ">"], ["<<", ">>"], ["+", "-"], ["*", "/", "%"]]

/-- Passes over blanks. -/
def skip (cs : List Char) : List Char := cs.dropWhile fun c => c = ' ' || c = '\t' || c = '\n'

/-- The operator that is next, the longest that it can be. -/
def operator? (cs : List Char) : Option String :=
  let all := levels.flatten
  (all.find? fun op => op.length = 2 && Text.startsWith op.toList cs) <|> all.find? fun op => op.length = 1 && Text.startsWith op.toList cs

/-- A number within 64 bits. -/
def wrap (n : Int) : Int := Int.bmod n UInt64.size

/-- The number for a truth value. -/
def ofBool (b : Bool) : Int := if b then 1 else 0

/-- What an operator makes of two numbers; division by zero makes nothing. -/
def combine? (op : String) (a b : Int) : Option Int :=
  match op with
  | "||" => some (ofBool (a ≠ 0 || b ≠ 0))
  | "&&" => some (ofBool (a ≠ 0 && b ≠ 0))
  | "|" => some ((a.toInt64 ||| b.toInt64).toInt)
  | "^" => some ((a.toInt64 ^^^ b.toInt64).toInt)
  | "&" => some ((a.toInt64 &&& b.toInt64).toInt)
  | "==" => some (ofBool (a = b))
  | "!=" => some (ofBool (a ≠ b))
  | "<=" => some (ofBool (a ≤ b))
  | ">=" => some (ofBool (b ≤ a))
  | "<" => some (ofBool (a < b))
  | ">" => some (ofBool (b < a))
  | "<<" => some (wrap (a * (1 <<< (b.toNat % 64) : Nat)))
  | ">>" => some (a / (1 <<< (b.toNat % 64) : Nat))
  | "+" => some (wrap (a + b))
  | "-" => some (wrap (a - b))
  | "*" => some (wrap (a * b))
  | "/" => if b = 0 then none else some (wrap (Int.tdiv a b))
  | "%" => if b = 0 then none else some (Int.tmod a b)
  | _ => none

/-- The value of digits of a base. -/
def digits (base : Nat) (cs : List Char) : Int :=
  cs.foldl (fun n c => n * base + (if c.isDigit then c.toNat - '0'.toNat else c.toLower.toNat - 'a'.toNat + 10 : Nat)) (0 : Int)

/-- The value of a number as it is written: sixteen is the base after a zero and an x, eight after another zero. -/
def numeral (cs : List Char) : Int :=
  match cs with
  | '0' :: 'x' :: rest => digits 16 rest
  | '0' :: 'X' :: rest => digits 16 rest
  | '0' :: rest => digits 8 rest
  | _ => digits 10 cs

mutual

/-- A number, a variable, something in parentheses, or a sign and one of these. -/
def primary (lookup : List Char → Except String Int) : Nat → List Char → Except String (Int × List Char)
  | 0, _ => .error "expecting primary"
  | fuel + 1, cs =>
    match skip cs with
    | '(' :: rest => do
      let (n, rest) ← climb lookup fuel levels rest
      match skip rest with
      | ')' :: rest => return (n, rest)
      | _ => .error "expecting ')'"
    | '-' :: rest => (primary lookup fuel rest).map fun (n, rest) => (wrap (-n), rest)
    | '+' :: rest => primary lookup fuel rest
    | '!' :: rest => (primary lookup fuel rest).map fun (n, rest) => (ofBool (n = 0), rest)
    | '~' :: rest => (primary lookup fuel rest).map fun (n, rest) => (-n - 1, rest)
    | c :: rest =>
      let word := (c :: rest).takeWhile fun c => c.isAlphanum || c = '_'
      let rest := (c :: rest).drop word.length
      if c.isDigit then .ok (wrap (numeral word), rest)
      else if word.isEmpty then .error "expecting primary"
      else (lookup word).map fun n => (n, rest)
    | [] => .error "expecting primary"

/-- An expression with operators of these levels. -/
def climb (lookup : List Char → Except String Int) : Nat → List (List String) → List Char → Except String (Int × List Char)
  | 0, _, _ => .error "expecting primary"
  | fuel + 1, [], cs => primary lookup fuel cs
  | fuel + 1, level :: closer, cs => do
    let (n, rest) ← climb lookup fuel closer cs
    goOn lookup fuel level closer n rest

/-- An expression that goes on with operators of a level. -/
def goOn (lookup : List Char → Except String Int) :
    Nat → List String → List (List String) → Int → List Char → Except String (Int × List Char)
  | 0, _, _, n, cs => .ok (n, cs)
  | fuel + 1, level, closer, n, cs =>
    match (operator? (skip cs)).filter level.contains with
    | none => .ok (n, cs)
    | some op => do
      let (m, rest) ← climb lookup fuel closer ((skip cs).drop op.length)
      match combine? op n m with
      | some k => goOn lookup fuel level closer k rest
      | none => .error "division by zero"

end

/-- The value of an expression, or what is wrong with it. -/
def evaluate (lookup : List Char → Except String Int) (cs : List Char) : Except String Int :=
  if (skip cs).isEmpty then .ok 0
  else
    match climb lookup (16 * (cs.length + 1)) levels cs with
    | .ok (n, rest) => if (skip rest).isEmpty then .ok n else .error "expecting EOF"
    | .error message => .error message

end Arithmetic

end Script

end CodeAtlas
