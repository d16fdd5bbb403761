import CodeAtlas.Extractor.Workplace
/-!
# Conditions of scripts

Tests of words, numbers and files.
-/

namespace CodeAtlas

namespace Script

namespace Condition

/-- Whether a flag holds of a word; `none` if there is no such flag. -/
def flag? (w : Workplace) (flag word : String) : Option Bool :=
  match flag with
  | "-n" => some (!word.isEmpty)
  | "-z" => some word.isEmpty
  | "-f" => some (w.file? word).isSome
  | "-r" => some (w.isThere word)
  | "-w" => some (w.isThere word)
  | "-e" => some (w.isThere word)
  | "-d" => some (w.isDirectory word)
  | "-x" => some (w.isDirectory word)
  | "-s" => some (w.isDirectory word || (w.file? word).any fun f => !f.bytes.isEmpty)
  | _ => none

/-- Whether two numbers stand in a relation; `none` if there is no such relation. -/
def relation? (relation : String) (m n : Int) : Option Bool :=
  match relation with
  | "-eq" => some (m = n)
  | "-ne" => some (m ≠ n)
  | "-lt" => some (m < n)
  | "-le" => some (m ≤ n)
  | "-gt" => some (n < m)
  | "-ge" => some (n ≤ m)
  | _ => none

/-- A condition of at most three words. -/
def short (w : Workplace) : List String → Except String Bool
  | [] => .ok false
  | [a] => .ok (!a.isEmpty)
  | ["!", a] => .ok a.isEmpty
  | [flag, a] =>
    match flag? w flag a with
    | some b => .ok b
    | none => .error (flag ++ ": unexpected operator")
  | [a, "=", b] => .ok (a = b)
  | [a, "!=", b] => .ok (a ≠ b)
  | ["!", flag, a] => (short w [flag, a]).map (!·)
  | [a, op, b] =>
    if (relation? op 0 0).isNone then .error (a ++ ": unexpected operator")
    else
      match Number.int64? (Text.trim a.toList), Number.int64? (Text.trim b.toList) with
      | some m, some n => .ok ((relation? op m n).getD false)
      | none, _ => .error ("Illegal number: " ++ a)
      | _, none => .error ("Illegal number: " ++ b)
  | _ => .error "too many arguments"

/-- Words cut at one of them. -/
def cutAt (mark : String) : List String → List (List String)
  | [] => [[]]
  | a :: rest =>
    if a = mark then [] :: cutAt mark rest
    else
      match cutAt mark rest with
      | first :: more => (a :: first) :: more
      | [] => [[a]]

/-- A condition that may be denied. -/
def denied (w : Workplace) : List String → Except String Bool
  | "!" :: rest => if 3 ≤ rest.length then (denied w rest).map (!·) else short w ("!" :: rest)
  | args => short w args

/-- Whether a condition holds, or what is wrong with it. -/
def holds (w : Workplace) (args : List String) : Except String Bool :=
  if args.length ≤ 3 then denied w args
  else do
    let alternatives ← (cutAt "-o" args).mapM fun part => do
      let parts ← (cutAt "-a" part).mapM (denied w)
      return parts.all id
    return alternatives.any id

end Condition

end Script

end CodeAtlas
