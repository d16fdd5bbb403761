import CodeAtlas.Extractor.Script.Condition
import CodeAtlas.Extractor.Script.Shell
/-!
# What scripts do by themselves

Commands that are no programs, because they change the state of the script, end it, or signal to it.
-/

namespace CodeAtlas

namespace Script

/-- A signal comes. What was asked for in this case is done later; otherwise the signal takes its effect. -/
def raise (signal : Nat) : Run Unit := do
  let trap := (← get).traps.lookup signal
  match if Signal.isInescapable signal then none else trap with
  | some action => if !action.isEmpty then modify fun sh => { sh with pending := sh.pending ++ [signal] }
  | none =>
    if Signal.isHarmless signal then return ()
    else if Signal.isPause signal then
      modify fun sh => { sh with elapsed := sh.elapsed + ProcessOutput.forever }
      throw .exit
    else throw (.killed signal)

/-- The signal and the processes that arguments name, or what is wrong with them. -/
def signalOf : List String → Except String Nat × List String
  | "-s" :: name :: rest => (((Signal.ofText? name).map .ok).getD (.error ("invalid signal number or name: " ++ name)), rest)
  | first :: rest =>
    match first.toList with
    | '-' :: c :: name =>
      (((Signal.ofText? (String.ofList (c :: name))).map .ok).getD (.error ("Illegal option -" ++ String.ofList [c])), rest)
    | _ => (.ok Signal.terminate, first :: rest)
  | [] => (.ok Signal.terminate, [])

/-- Sends a signal to processes; only to itself can a script send one. -/
def kill (line : Nat) (args : List String) : Run Unit := do
  let (signal, processes) := signalOf args
  match signal with
  | .error message => complain line 2 ("kill: " ++ message)
  | .ok signal =>
    if processes.isEmpty then
      complain line 2 "kill: Usage: kill [-s sigspec | -signum | -sigspec] [pid | job]... or\nkill -l [exitstatus]"
    else if processes.contains Shell.processNumber then
      setStatus 0
      raise signal
    else
      match processes.find? fun p => (Number.nat? p.toList).isNone with
      | some other => complain line 2 ("kill: Illegal number: " ++ other)
      | none => complain line 1 "kill: No such process\n"

/-- A test of a condition. -/
def test (line : Nat) (name : String) (args : List String) : Run Unit := do
  match Condition.holds (← get).place args with
  | .ok b => setStatus (if b then 0 else 1)
  | .error message => complain line 2 (name ++ ": " ++ message)

/-- A number that an argument gives, or else one that is there already; anything else ends the script. -/
def numberOr (line : Nat) (name : String) (given : Nat) : List String → Run Nat
  | [] => return given
  | text :: _ =>
    match Number.natBelow? (UInt32.size / 2) (Text.trim text.toList) with
    | some n => return n
    | none => do
      abort line (name ++ ": Illegal number: " ++ text)
      return given

/-- Ends the script. The status is the last one, unless another is given. -/
def exitWith (line : Nat) (args : List String) : Run Unit := do
  let n ← numberOr line "exit" (← get).status args
  setStatus (n % 256)
  throw .exit

/-- Gives variables values, each by an argument with a name, a sign and a value. -/
def bindAll (args : List String) : Run Unit := do
  for arg in args do
    match Text.splitFirst? '=' arg.toList with
    | some (name, value) => modify fun sh => sh.bind (String.ofList name) (String.ofList value)
    | none => pure ()
  setStatus 0

/-- Switches options of the script on or off, or replaces its parameters. -/
def setOptions : List String → Run Unit
  | [] => return ()
  | "--" :: parameters => modify fun sh => { sh with parameters := parameters }
  | arg :: rest =>
    match arg.toList with
    | sign :: letters =>
      if sign = '-' || sign = '+' then do
        modify fun sh =>
          { sh with
            strict := if letters.contains 'e' then sign = '-' else sh.strict
            needsValues := if letters.contains 'u' then sign = '-' else sh.needsValues
            shown := if letters.contains 'x' then sign = '-' else sh.shown }
        setOptions rest
      else modify fun sh => { sh with parameters := arg :: rest }
    | [] => modify fun sh => { sh with parameters := arg :: rest }

/-- The number of a signal, or zero for the end of the script. -/
def trapNumber? (text : String) : Option Nat := if text.toUpper = "EXIT" then some 0 else Signal.ofText? text

/-- Says what is to be done when signals come. A dash, or no action at all, undoes it. -/
def trap (line : Nat) (args : List String) : Run Unit := do
  let (action, names) := match args with
    | [name] => (none, [name])
    | "-" :: names => (none, names)
    | action :: names => (some action, names)
    | [] => (none, [])
  setStatus 0
  for name in names do
    match trapNumber? name with
    | none => complain line 1 ("trap: " ++ name ++ ": bad trap")
    | some n =>
      modify fun sh => { sh with traps := (action.map fun a => (n, a)).toList ++ sh.traps.filter (·.1 ≠ n) }

/-- Moves to another directory. -/
def changeDirectory (line : Nat) (args : List String) : Run Unit := do
  let path := args.headD "/"
  match (← get).place.enter? path with
  | some place => modify fun sh => { sh with place := place, status := 0 }
  | none => complain line 2 ("cd: can't cd to " ++ path)

/-- Puts what was read into variables; the last one takes all that is left. -/
def bindFields : List String → List Char → Run Unit
  | [], _ => return ()
  | [name], cs => modify fun sh => sh.bind name (String.ofList (Text.trim cs))
  | name :: names, cs => do
    let cs := Text.trimStart cs
    let field := cs.takeWhile fun c => !Text.isBlank c
    modify fun sh => sh.bind name (String.ofList field)
    bindFields names (cs.drop field.length)

/-- Reads a line of the input into variables. It fails at the end of the input. -/
def readLine (args : List String) : Run Unit := do
  let isRaw := args.contains "-r"
  let names := args.filter fun a => a.toList.head? ≠ some '-'
  let input := (← get).input
  let line := input.takeWhile (· ≠ 10)
  let rest := input.drop line.length
  let text := (Text.decode line).toList
  bindFields names (if isRaw then text else text.filter (· ≠ '\\'))
  modify fun sh => { sh with input := rest.drop 1, status := if rest.isEmpty then 1 else 0 }

/-- A program that a path or a name does not lead to. -/
def missing (line : Nat) (doing : String) (program : String) : Run Unit := do
  if program.isEmpty then complain line 127 (doing ++ ": Permission denied")
  else if program.toList.contains '/' && (← get).place.isThere program then
    complain line 126 (doing ++ program ++ ": Permission denied")
  else complain line 127 (doing ++ program ++ ": not found")

/-- Commands that belong to the script itself, so that a fault in them is a fault of the script. -/
def specialNames : List String :=
  [".", ":", "break", "continue", "eval", "exec", "exit", "export", "readonly", "return", "set", "shift", "trap", "unset"]

/-- The other commands that are no programs. -/
def builtinNames : List String :=
  ["[", "alias", "cd", "command", "echo", "false", "hash", "jobs", "kill", "local", "printf", "pwd", "read", "test", "true", "type", "ulimit",
    "umask", "wait"]

/-- Tells what a name stands for. -/
def locateName (name : String) : Run Unit := do
  if specialNames.contains name || builtinNames.contains name || ((← get).functions.lookup name).isSome then
    takeOver { stdout := Text.encode (name ++ "\n") }
  else if name = "sh" || (Program.ofName? name).isSome then
    takeOver { stdout := Text.encode ((if Path.isAbsolute name then name else "/usr/bin/" ++ name) ++ "\n") }
  else setStatus 127

/-- A command of the script itself; `none` if it is no such command. -/
def builtin? (line : Nat) : List String → Option (Run Unit)
  | ":" :: _ => some (setStatus 0)
  | "exit" :: args => some (exitWith line args)
  | "kill" :: args => some (kill line args)
  | "test" :: args => some (test line "test" args)
  | "[" :: args =>
    if args.getLast? = some "]" then some (test line "[" args.dropLast) else some (complain line 2 "[: missing ]")
  | "export" :: args => some (bindAll args)
  | "readonly" :: args => some (bindAll args)
  | "local" :: args => some (bindAll args)
  | "set" :: args => some do
    setOptions args
    setStatus 0
  | "shift" :: args => some do
    let n ← numberOr line "shift" 1 args
    if (← get).parameters.length < n then abort line "shift: can't shift that many"
    modify fun sh => { sh with parameters := sh.parameters.drop n, status := 0 }
  | "unset" :: args => some (modify fun sh => { sh with bindings := sh.bindings.filter fun b => !args.contains b.1, status := 0 })
  | "trap" :: args => some (trap line args)
  | "cd" :: args => some (changeDirectory line args)
  | "pwd" :: _ => some do
    takeOver { stdout := Text.encode (((← get).place.directory.getD "/") ++ "\n") }
  | "read" :: args => some (readLine args)
  | "wait" :: _ => some (setStatus 0)
  | "jobs" :: _ => some (setStatus 0)
  | "hash" :: _ => some (setStatus 0)
  | "alias" :: args =>
    let unknown := args.filter fun a => !a.toList.contains '='
    some (takeOver
      { stderr := Text.encode (String.join (unknown.map fun a => "alias: " ++ a ++ " not found\n"))
        ending := .exited (if unknown.isEmpty then 0 else 1) })
  | "ulimit" :: _ => some (setStatus 0)
  | "umask" :: _ => some (setStatus 0)
  | ["printf"] => some (complain line 2 "printf: usage: printf format [arg ...]")
  | "printf" :: format :: args => some do
    let (bytes, fault) := Format.formatted format args
    takeOver { stdout := bytes }
    match fault with
    | some (.badDirective text) => complain line 2 ("printf: " ++ text ++ ": invalid directive")
    | some (.badNumber text) => complain line 1 ("printf: " ++ text ++ ": expected numeric value")
    | none => return ()
  | ["command", "-v", name] => some (locateName name)
  | "echo" :: args => some (takeOver { stdout := Format.escapedLine args })
  | "break" :: args => some do
    let n ← numberOr line "break" 1 args
    setStatus 0
    if 0 < (← get).loops then throw (.leave n)
  | "continue" :: args => some do
    let n ← numberOr line "continue" 1 args
    setStatus 0
    if 0 < (← get).loops then throw (.again n)
  | "return" :: args => some do
    let n ← numberOr line "return" (← get).status args
    setStatus (n % 256)
    throw .back
  | _ => none

end Script

end CodeAtlas
