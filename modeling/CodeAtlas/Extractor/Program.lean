import CodeAtlas.Extractor.Filter
/-!
# Programs

The programs that a command may run: they print files, words or nothing, wait, and end with a status. A program sees its workplace and
its input and nothing else, so that what it prints is a function of these and its arguments.
-/

namespace CodeAtlas

/-- A program. -/
inductive Program where
  | cat
  | head
  | tail
  | wc
  | tr
  | echo
  | printf
  | seq
  | yes
  | basename
  | dirname
  | sleep
  | succeed
  | fail
deriving Repr, DecidableEq, Inhabited

namespace Program

/-- The directories in which programs are found. -/
def directories : List String := ["/bin/", "/usr/bin/"]

/-- The name of a program, given as such or as a path to where programs are. -/
def bareName (name : String) : String :=
  match directories.findSome? fun dir => Text.after? dir.toList name.toList with
  | some rest => String.ofList rest
  | none => name

/-- A program by its name. -/
def ofName? (name : String) : Option Program :=
  match bareName name with
  | "cat" => some .cat
  | "head" => some .head
  | "tail" => some .tail
  | "wc" => some .wc
  | "tr" => some .tr
  | "echo" => some .echo
  | "printf" => some .printf
  | "seq" => some .seq
  | "yes" => some .yes
  | "basename" => some .basename
  | "dirname" => some .dirname
  | "sleep" => some .sleep
  | "true" => some .succeed
  | "false" => some .fail
  | _ => none

/-- Whether a program reads all its input. -/
def readsInput : Program → Bool
  | cat | head | tail | wc | tr => true
  | _ => false

/-- How many seconds a unit of time has. -/
def unitSeconds? : List Char → Option Nat
  | [] => some 1
  | ['s'] => some 1
  | ['m'] => some 60
  | ['h'] => some 3600
  | ['d'] => some 86400
  | _ => none

/-- A time, perhaps with a fraction and a unit, in milliseconds. -/
def milliseconds? (text : String) : Option Nat :=
  let number := text.toList.takeWhile fun c => c.isDigit || c = '.'
  let (whole, fraction) := (Text.splitFirst? '.' number).getD (number, [])
  match unitSeconds? (text.toList.drop number.length), Number.nat? ('0' :: whole), Number.nat? ('0' :: fraction) with
  | some unit, some seconds, some _ =>
    if whole.isEmpty && fraction.isEmpty then none
    else some (unit * (seconds * 1000 + Number.digitsValue ((fraction ++ ['0', '0', '0']).take 3)))
  | _, _, _ => none

/-- Waits for the sum of its arguments. -/
def wait (args : List String) : ProcessOutput :=
  let (options, times) := Filter.arguments [] args
  match options, times.filter fun time => (milliseconds? time).isNone with
  | (option, _) :: _, _ => Filter.refuse "sleep" option
  | [], [] =>
    if times.isEmpty then .complaint ("sleep: missing operand" ++ Filter.hint "sleep")
    else { elapsed := (times.filterMap milliseconds?).foldl (· + ·) 0 }
  | [], others =>
    let lines := others.map fun other => "sleep: invalid time interval " ++ Filter.quotedName other
    .complaint ("\n".intercalate lines ++ Filter.hint "sleep")

/-- Prints words by a format. -/
def formatWords : List String → ProcessOutput
  | [] => .complaint ("printf: missing operand" ++ Filter.hint "printf")
  | format :: args =>
    match Format.formatted format args with
    | (bytes, none) => { stdout := bytes }
    | (bytes, some (.badDirective text)) =>
      { ProcessOutput.complaint ("printf: " ++ text ++ ": invalid conversion specification") with stdout := bytes }
    | (bytes, some (.badNumber text)) =>
      { ProcessOutput.complaint ("printf: " ++ Filter.quotedName text ++ ": expected a numeric value") with stdout := bytes }

/-- Runs a program. -/
def run (w : Workplace) (input : List UInt8) (args : List String) : Program → ProcessOutput
  | .cat => Filter.print w input args
  | .head => Filter.excerpt w "head" '-' Filter.Extent.beginning input args
  | .tail => Filter.excerpt w "tail" '+' Filter.Extent.ending input args
  | .wc => Filter.countAll w input args
  | .tr => Filter.exchange input args
  | .echo => { stdout := Format.plainLine args }
  | .printf => formatWords args
  | .seq => Filter.countUp args
  | .yes => Filter.repeatLine args
  | .basename => Filter.lastName args
  | .dirname => Filter.leadingPath args
  | .sleep => wait args
  | .succeed => {}
  | .fail => { ending := .exited 1 }

end Program

end CodeAtlas
