/-!
# Tables of code points

A table of a character property is a list of runs. A run is written as text, in hexadecimal: `C0-D6` is
every code point from `C0` to `D6`, `100-12E/2` every second one, and `C0-D6>E0` sends the first to `E0`,
the next to `E1`, and so on. A run without an arrow sends every code point to itself, so one type serves
the sets (`Run.covers`) and the maps (`Run.image`) alike.
-/

namespace CodeAtlas.Text

/-- The code points `first`, `first + step`, …, up to `last`, and the code point `first` is sent to. -/
structure Run where
  first : Nat
  last : Nat
  step : Nat
  target : Nat
deriving Repr, DecidableEq

namespace Run

/-- Whether `n` is one of the run's code points. -/
def covers (r : Run) (n : Nat) : Bool :=
  r.first ≤ n && n ≤ r.last && (n - r.first) % r.step == 0

/-- Where the run sends its code point `n`: runs keep distances. -/
def image (r : Run) (n : Nat) : Nat :=
  r.target + (n - r.first)

/-- The value of a hexadecimal digit; other characters count as zero. -/
def hexDigit (c : Char) : Nat :=
  if '0' ≤ c ∧ c ≤ '9' then c.toNat - '0'.toNat
  else if 'A' ≤ c ∧ c ≤ 'F' then c.toNat - 'A'.toNat + 10
  else 0

/-- The value of a hexadecimal numeral. -/
def hexValue (cs : List Char) : Nat :=
  cs.foldl (fun n c => 16 * n + hexDigit c) 0

/-- The parts before and after the first `mark`; without one there is no second part. -/
def cut (mark : Char) (cs : List Char) : List Char × Option (List Char) :=
  (cs.takeWhile (· ≠ mark), (cs.dropWhile (· ≠ mark)).tail?)

/-- Reads one run in the notation of the module comment. -/
def ofText (cs : List Char) : Run :=
  let (source, target) := cut '>' cs
  let (range, step) := cut '/' source
  let (first, last) := cut '-' range
  { first := hexValue first
    last := hexValue (last.getD first)
    step := (step.map hexValue).getD 1
    target := hexValue (target.getD first) }

end Run

/-- A table in memory. -/
abbrev CodeTable := Array Run

namespace CodeTable

/-- Splits at blanks and line ends, dropping empty parts. -/
def entries : List Char → List (List Char)
  | [] => []
  | c :: cs =>
    if c = ' ' ∨ c = '\n' then [] :: entries cs
    else
      match entries cs with
      | [] => [[c]]
      | word :: rest => (c :: word) :: rest

/-- Reads a table: runs between blanks and line ends. -/
def ofText (text : String) : CodeTable :=
  (((entries text.toList).filter (· ≠ [])).map Run.ofText).toArray

/-- Membership in a table read as a set. -/
def contains (table : CodeTable) (c : Char) : Bool :=
  table.any (·.covers c.toNat)

/-- The image of a character under a table read as a map; what no run covers stays. -/
def apply (table : CodeTable) (c : Char) : Char :=
  match table.find? (·.covers c.toNat) with
  | some run => Char.ofNat (run.image c.toNat)
  | none => c

end CodeTable

end CodeAtlas.Text
