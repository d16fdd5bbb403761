import CodeAtlas.Extractor.Script.Command
import CodeAtlas.Extractor.Script.Pattern
import CodeAtlas.Extractor.Program
/-!
# The state of a script that runs

A script has parameters, variables and functions, the status of its last command, an input, and streams to which its commands write. What is written is kept
with the place where it went, latest first, so that the order of what was written to one place is known, whichever command wrote it.

`Run` is an action on this state that may stop: the script ends, a loop is left, or a function is done.
-/

namespace CodeAtlas

namespace Script

/-- Where an output goes: to one of the outputs of the process, nowhere, or to whoever reads a channel. -/
inductive Target where
  | stdout
  | stderr
  | nowhere
  | channel (number : Nat)
deriving Repr, DecidableEq, Inhabited

/-- What holds while a script runs. -/
structure Shell where
  place : Workplace
  name : String
  parameters : List String := []
  bindings : List (String × String) := []
  functions : List (String × Command) := []
  /-- What is done when a signal comes, or at the end, which has the number zero. -/
  traps : List (Nat × String) := []
  /-- Signals that came and are still to be answered. -/
  pending : List Nat := []
  status : Nat := 0
  /-- The status of the last script of which the output was used. -/
  outputStatus : Nat := 0
  /-- Whether the first failure that nothing waits for ends the script. -/
  strict : Bool := false
  /-- Whether a variable without a value ends the script. -/
  needsValues : Bool := false
  /-- Whether commands are shown before they run. -/
  shown : Bool := false
  input : List UInt8 := []
  streams : List (Nat × Target) := [(1, .stdout), (2, .stderr)]
  /-- How many channels have been in use. -/
  channels : Nat := 0
  /-- How many loops the command at hand is in. -/
  loops : Nat := 0
  written : List (Target × List UInt8) := []
  elapsed : Nat := 0
deriving Inhabited

/-- Why what follows is not run: the script ends, a loop is left or begun anew, or a function is done. -/
inductive Stop where
  | exit
  | killed (signal : Nat)
  | leave (levels : Nat)
  | again (levels : Nat)
  | back
deriving Repr, DecidableEq, Inhabited

/-- An action of a script. What it changed stays when it stops. -/
abbrev Run := ExceptT Stop (StateM Shell)

namespace Shell

/-- The number of the process that runs a script. Only the script itself gets to know it. -/
def processNumber : String := "4194304"

/-- The value of a parameter or a variable, if it has one. -/
def value? (sh : Shell) (name : List Char) : Option String :=
  match name with
  | ['?'] => some (toString sh.status)
  | ['#'] => some (toString sh.parameters.length)
  | ['$'] => some processNumber
  | ['0'] => some sh.name
  | ['!'] => some ""
  | ['-'] => some ""
  | _ =>
    match Number.nat? name with
    | some n => sh.parameters[n - 1]?
    | none => sh.bindings.lookup (String.ofList name)

/-- Gives a variable a value. -/
def bind (sh : Shell) (name value : String) : Shell :=
  { sh with bindings := (name, value) :: sh.bindings.filter (·.1 ≠ name) }

/-- Where a stream goes; one that is closed goes nowhere. -/
def target (sh : Shell) (stream : Nat) : Target := (sh.streams.lookup stream).getD .nowhere

/-- Sends a stream elsewhere. -/
def redirect (sh : Shell) (stream : Nat) (target : Target) : Shell :=
  { sh with streams := (stream, target) :: sh.streams.filter (·.1 ≠ stream) }

/-- Closes a stream. -/
def close (sh : Shell) (stream : Nat) : Shell := { sh with streams := sh.streams.filter (·.1 ≠ stream) }

/-- Writes to a stream. -/
def write (sh : Shell) (stream : Nat) (bytes : List UInt8) : Shell :=
  if bytes.isEmpty || sh.target stream = .nowhere then sh else { sh with written := (sh.target stream, bytes) :: sh.written }

/-- What was written to a place. -/
def received (sh : Shell) (place : Target) : List UInt8 :=
  (sh.written.reverse.filter (·.1 = place)).flatMap (·.2)

/-- What a process that ends in this state leaves behind. -/
def output (sh : Shell) (ending : Ending) : ProcessOutput :=
  { stdout := sh.received .stdout, stderr := sh.received .stderr, ending := ending, elapsed := sh.elapsed }

/-- The state after commands that had one of their own: only what they wrote, how they ended and how long they took is seen. -/
def resume (before after : Shell) : Shell :=
  { before with
    written := after.written, status := after.status, elapsed := after.elapsed, channels := after.channels, pending := after.pending }

end Shell

/-- Runs an action and tells why it stopped, if it did. -/
def attempt (body : Run Unit) : Run (Option Stop) := tryCatch (do body; return none) fun stop => return some stop

/-- Stops for a reason, if there is one. -/
def stopFor : Option Stop → Run Unit
  | some stop => throw stop
  | none => return ()

/-- Runs an action with a state of its own. The end of it is not the end of the script, unless a signal came. -/
def apart (body : Run Unit) : Run Unit := do
  let before ← get
  let stop ← attempt body
  modify before.resume
  match stop with
  | some (.killed signal) => throw (.killed signal)
  | _ => return ()

/-- Runs an action and gives what it wrote to its output. -/
def captured (body : Run Unit) : Run (List UInt8) := do
  let number := (← get).channels + 1
  apart do
    modify fun sh => { sh.redirect 1 (.channel number) with channels := number }
    body
  let bytes := (← get).received (.channel number)
  modify fun sh => { sh with written := sh.written.filter (·.1 ≠ .channel number) }
  return bytes

/-- Sets the status. -/
def setStatus (status : Nat) : Run Unit := modify fun sh => { sh with status := status }

/-- Complains about a line. -/
def complain (line status : Nat) (text : String) : Run Unit :=
  modify fun sh =>
    { sh.write 2 (Text.encode (sh.name ++ ": " ++ toString line ++ ": " ++ text ++ "\n")) with status := status }

/-- Complains about a line and ends the script. -/
def abort (line : Nat) (text : String) : Run Unit := do
  complain line 2 text
  throw .exit

/-- Takes over what a process printed and how it ended. -/
def takeOver (out : ProcessOutput) : Run Unit :=
  modify fun sh =>
    { (sh.write 1 out.stdout).write 2 out.stderr with status := out.status, elapsed := sh.elapsed + out.elapsed }

/-- Ends the script after a failure that nothing waits for, if it is strict. -/
def checkStrict (tested : Bool) : Run Unit := do
  let sh ← get
  if sh.strict && sh.status ≠ 0 && !tested then throw .exit

/-- What is to be done to the value of a parameter. With `orEmpty`, an empty value counts as none. -/
inductive Change where
  | keep
  | length
  | default (orEmpty : Bool) (word : List Char)
  | assign (orEmpty : Bool) (word : List Char)
  | replace (orEmpty : Bool) (word : List Char)
  | require (orEmpty : Bool) (word : List Char)
  | cutStart (longest : Bool) (pattern : List Char)
  | cutEnd (longest : Bool) (pattern : List Char)
deriving Repr, DecidableEq, Inhabited

/-- The change that stands after a name. -/
def changeOf? : List Char → Option Change
  | [] => some .keep
  | ':' :: '-' :: word => some (.default true word)
  | ':' :: '=' :: word => some (.assign true word)
  | ':' :: '+' :: word => some (.replace true word)
  | ':' :: '?' :: word => some (.require true word)
  | '-' :: word => some (.default false word)
  | '=' :: word => some (.assign false word)
  | '+' :: word => some (.replace false word)
  | '?' :: word => some (.require false word)
  | '#' :: '#' :: pattern => some (.cutStart true pattern)
  | '#' :: pattern => some (.cutStart false pattern)
  | '%' :: '%' :: pattern => some (.cutEnd true pattern)
  | '%' :: pattern => some (.cutEnd false pattern)
  | _ => none

/-- The name of a parameter and what is done to its value. -/
def useOf? : List Char → Option (List Char × Change)
  | '#' :: c :: rest =>
    if isNameChar c && (c :: rest).all isNameChar then some (c :: rest, .length) else (changeOf? (c :: rest)).map fun change => (['#'], change)
  | c :: rest =>
    if isNameChar c then (changeOf? (rest.dropWhile isNameChar)).map fun change => (c :: rest.takeWhile isNameChar, change)
    else if isSpecialName c then (changeOf? rest).map fun change => ([c], change)
    else none
  | [] => none

/-- Fields joined at their ends: the last of the first list runs on into the first of the second. -/
def glue : List (List Char) → List (List Char) → List (List Char)
  | fields, [] => fields
  | [], more => more
  | fields, first :: more => fields.dropLast ++ ((fields.getLast?.getD []) ++ first) :: more

/-- A value split at blanks. Blanks at its ends part it from what stands beside it. -/
def splitValue (value : List Char) : List (List Char) :=
  let isGap (c : Char) : Bool := c = ' ' || c = '\t' || c = '\n'
  let words := (Text.splitOn ' ' (value.map fun c => if isGap c then ' ' else c)).filter (!·.isEmpty)
  if words.isEmpty then []
  else
    (if value.head?.any isGap then [[]] else []) ++ words ++ (if value.getLast?.any isGap then [[]] else [])

/-- Whether a piece is there even if it is empty: characters are, and so are quotes. -/
def Piece.isLiteral : Piece → Bool
  | .text _ _ => true
  | _ => false

/-- The name to which a word gives a value, and the rest of the word. -/
def assignment? : Word → Option (String × Word)
  | .text cs false :: rest =>
    match Text.splitFirst? '=' cs with
    | some (name, value) => if isName name then some (String.ofList name, .text value false :: rest) else none
    | none => none
  | _ => none

end Script

end CodeAtlas
