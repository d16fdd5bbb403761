import CodeAtlas.Extractor.Script.Arithmetic
import CodeAtlas.Extractor.Script.Builtin
/-!
# Running scripts

Words are expanded to the fields that they stand for, arrows are followed, and commands are run. All of this can run other scripts, so it is one recursion; `fuel`
bounds its depth and the rounds of loops. A script that uses it up is one that does not end.
-/

namespace CodeAtlas

namespace Script

/-- More rounds than any script goes that ends. -/
def maxRounds : Nat := 1000000

/-- Stops a script that does not end. -/
def runOn : Run Unit := do
  modify fun sh => { sh with elapsed := sh.elapsed + ProcessOutput.forever }
  throw .exit

/-- The value of a variable in an expression. -/
def numberOf (sh : Shell) (name : List Char) : Except String Int :=
  match Text.trim (((sh.value? name).getD "").toList) with
  | [] => .ok 0
  | text =>
    match Number.int64? text with
    | some n => .ok n
    | none => .error ("Illegal number: " ++ String.ofList text)

/-- Reads a file as the input. -/
def readFrom (line : Nat) (path : String) : Run Bool := do
  match Filter.read? (← get).place [] path with
  | some bytes =>
    modify fun sh => { sh with input := if path = "/dev/stdin" then sh.input else bytes }
    return true
  | none =>
    if (← get).place.isDirectory path then return true
    complain line 2 ("cannot open " ++ path ++ ": No such file")
    return false

/-- Sends a stream to a file. -/
def writeTo (line stream : Nat) (path : String) : Run Bool := do
  let sh ← get
  if path = "/dev/stderr" then
    modify fun sh => sh.redirect stream (sh.target 2)
    return true
  else if path = "/dev/stdout" then
    modify fun sh => sh.redirect stream (sh.target 1)
    return true
  else if sh.place.isDirectory path then
    complain line 2 ("cannot create " ++ path ++ ": Is a directory")
    return false
  else if path.isEmpty || sh.place.passesFile path || (Path.isAbsolute path && !sh.place.isThere (Path.parent path)) then
    complain line 2 ("cannot create " ++ path ++ ": Directory nonexistent")
    return false
  else
    modify fun sh => sh.redirect stream .nowhere
    return true

/-- Sends a stream to where another goes, or closes it. -/
def joinTo (line stream : Nat) (other : String) : Run Bool := do
  if other = "-" then
    modify fun sh => sh.close stream
    return true
  match Number.nat? other.toList with
  | none =>
    abort line "Syntax error: Bad fd number"
    return false
  | some n =>
    match (← get).streams.lookup n with
    | some target =>
      modify fun sh => sh.redirect stream target
      return true
    | none =>
      if n = 0 then return true
      complain line 2 (other ++ ": Bad file descriptor")
      return false

/-- Takes back where streams went. What was read of the input stays read, unless it was another input. -/
def restore (before : Shell) (redirections : List Redirection) : Run Unit :=
  let isInput : Redirection → Bool
    | .arrow stream _ _ => stream = 0
    | .document _ => true
  modify fun sh => { sh with streams := before.streams, input := if redirections.any isInput then before.input else sh.input }

/-- Runs a program. -/
def runProgram (p : Program) (args : List String) : Run Unit := do
  let sh ← get
  takeOver (p.run sh.place sh.input args)
  if p.readsInput then modify fun sh => { sh with input := [] }

/-- A stop as the loop around it sees it: whether the loop goes on. Stops that concern more than the loop are passed on. -/
def afterRound : Option Stop → Run Bool
  | none => return true
  | some (.leave n) => if 1 < n then throw (.leave (n - 1)) else return false
  | some (.again n) => if 1 < n then throw (.again (n - 1)) else return true
  | some stop => throw stop

/-- The letters of the options of a shell, and the arguments after them. -/
def shellOptions : List String → List Char × List String
  | [] => ([], [])
  | arg :: rest =>
    match arg.toList with
    | ['-', '-'] => ([], rest)
    | '-' :: c :: letters =>
      let (more, rest) := shellOptions rest
      (c :: letters ++ more, rest)
    | _ => ([], arg :: rest)

/-- The options of a shell that are known. -/
def knownOptions : List Char := "abcefilmnsuvxCEIV".toList

mutual

/-- The fields that a piece stands for. -/
def expandPiece : Nat → Nat → Piece → Run (List (List Char))
  | 0, _, _ => do
    runOn
    return []
  | fuel + 1, line, piece =>
    match piece with
    | .text cs _ => return [cs]
    | .sum expression quoted => do
      let text := (← expandWhole fuel line (wholeWord .document expression)).toList
      match Arithmetic.evaluate (numberOf (← get)) text with
      | .ok n => return if quoted then [(toString n).toList] else splitValue (toString n).toList
      | .error message =>
        let isNumber := Text.startsWith "Illegal".toList message.toList
        abort line (if isNumber then message else "arithmetic expression: " ++ message ++ ": \"" ++ String.ofList text ++ "\"")
        return []
    | .output script quoted => do
      let bytes ← captured (evalScript fuel script)
      modify fun sh => { sh with outputStatus := sh.status }
      let text := Text.dropEndWhile (· = '\n') (Text.decode bytes).toList
      return if quoted then [text] else splitValue text
    | .parameter use quoted =>
      if use = ['@'] && quoted then return (← get).parameters.map String.toList
      else do
        let text := (← expandUse fuel line use quoted).toList
        return if quoted then [text] else splitValue text

/-- The value of a parameter with what is done to it. -/
def expandUse : Nat → Nat → List Char → Bool → Run String
  | 0, _, _, _ => do
    runOn
    return ""
  | fuel + 1, line, use, quoted =>
    match useOf? use with
    | none => do
      abort line "Bad substitution"
      return ""
    | some (name, change) => do
      let sh ← get
      let value? := if name = ['@'] || name = ['*'] then some (" ".intercalate sh.parameters) else sh.value? name
      let value := value?.getD ""
      let isMissing (orEmpty : Bool) : Bool := value?.isNone || (orEmpty && value.isEmpty)
      let inner (word : List Char) : Run String := expandWhole fuel line (wholeWord (if quoted then .document else .plain) word)
      let pattern (word : List Char) : Run (List Pattern.Part) := do
        let cs ← expandPattern fuel line (wholeWord .plain word)
        return Pattern.ofChars (cs.length + 1) cs
      match change with
      | .keep =>
        if value?.isNone && sh.needsValues then abort line (String.ofList name ++ ": parameter not set")
        return value
      | .length => return toString value.length
      | .default orEmpty word => if isMissing orEmpty then inner word else return value
      | .replace orEmpty word => if isMissing orEmpty then return "" else inner word
      | .assign orEmpty word =>
        if isMissing orEmpty then
          let value ← inner word
          modify fun sh => sh.bind (String.ofList name) value
          return value
        else return value
      | .require orEmpty word =>
        if isMissing orEmpty then
          let message ← inner word
          abort line (String.ofList name ++ ": " ++
            if !message.isEmpty then message else if orEmpty then "parameter not set or null" else "parameter not set")
        return value
      | .cutStart longest word => return String.ofList (Pattern.cutStart longest (← pattern word) value.toList)
      | .cutEnd longest word => return String.ofList (Pattern.cutEnd longest (← pattern word) value.toList)

/-- The fields that a word stands for. -/
def expandFields : Nat → Nat → Word → Run (List (List Char))
  | 0, _, _ => do
    runOn
    return []
  | _, _, [] => return []
  | fuel + 1, line, piece :: rest => do
    let fields ← expandPiece fuel line piece
    return glue fields (← expandFields fuel line rest)

/-- A word where it is not split. -/
def expandWhole : Nat → Nat → Word → Run String
  | 0, _, _ => do
    runOn
    return ""
  | _, _, [] => return ""
  | fuel + 1, line, piece :: rest => do
    let piece := match piece with
      | .text cs quoted => .text cs quoted
      | .parameter use _ => .parameter use true
      | .output script _ => .output script true
      | .sum expression _ => .sum expression true
    let fields ← expandPiece fuel line piece
    return " ".intercalate (fields.map String.ofList) ++ (← expandWhole fuel line rest)

/-- The characters of a pattern, with whether they stand for themselves. -/
def expandPattern : Nat → Nat → Word → Run (List (Char × Bool))
  | 0, _, _ => do
    runOn
    return []
  | _, _, [] => return []
  | fuel + 1, line, piece :: rest => do
    let isLiteral := match piece with
      | .text _ quoted => quoted
      | .parameter _ quoted => quoted
      | .output _ quoted => quoted
      | .sum _ quoted => quoted
    let text ← expandWhole fuel line [piece]
    return text.toList.map (fun c => (c, isLiteral)) ++ (← expandPattern fuel line rest)

/-- The words of a command. All parameters together are no word if there are none. -/
def expandWords : Nat → Nat → List Word → Run (List String)
  | 0, _, _ => do
    runOn
    return []
  | _, _, [] => return []
  | fuel + 1, line, word :: rest => do
    let fields ←
      if word.filter (· ≠ .text [] true) = allParameters then pure ((← get).parameters.map String.toList)
      else do
        let fields ← expandFields fuel line word
        pure (if word.any Piece.isLiteral then fields else fields.filter (!·.isEmpty))
    return fields.map String.ofList ++ (← expandWords fuel line rest)

/-- Follows arrows. Tells whether all lead somewhere. -/
def redirectAll : Nat → Nat → List Redirection → Run Bool
  | 0, _, _ => do
    runOn
    return false
  | _, _, [] => return true
  | fuel + 1, line, r :: rest => do
    let isDone ← match r with
      | .document body => do
        let text ← expandWhole fuel line body
        modify fun sh => { sh with input := Text.encode text }
        pure true
      | .arrow stream kind word => do
        let name ← expandWhole fuel line word
        match kind with
        | .joined => joinTo line stream name
        | .input => readFrom line name
        | .output => writeTo line stream name
    if isDone then redirectAll fuel line rest else return false

/-- Gives variables the values of words. -/
def assignAll : Nat → Nat → List (String × Word) → Run Unit
  | 0, _, _ => runOn
  | _, _, [] => return ()
  | fuel + 1, line, (name, word) :: rest => do
    let value ← expandWhole fuel line word
    modify fun sh => sh.bind name value
    assignAll fuel line rest

/-- Runs a command by its words. -/
def runWords : Nat → Bool → Nat → List String → Run Unit
  | 0, _, _, _ => runOn
  | fuel + 1, tested, line, words =>
    match words with
    | [] => return ()
    | ["exec"] => setStatus 0
    | "exec" :: program :: args => do
      modify fun sh => { sh with traps := [] }
      match Program.ofName? program with
      | some p => runProgram p args
      | none => if Program.bareName program = "sh" then runShellWith fuel args else missing line "exec: " program
      throw .exit
    | "eval" :: args => do
      setStatus 0
      evalScript fuel (" ".intercalate args).toList
    | [".", path] => do
      match (← get).place.file? path with
      | some f => evalScript fuel f.text.toList
      | none =>
        abort line (if path.toList.contains '/' then ".: cannot open " ++ path ++ ": No such file" else ".: " ++ path ++ ": not found")
    | name :: args => do
      match (← get).functions.lookup name with
      | some body =>
        let before ← get
        modify fun sh => { sh with parameters := args, loops := 0 }
        let stop ← attempt (eval fuel tested body)
        modify fun sh => { sh with parameters := before.parameters, loops := before.loops }
        stopFor (stop.filter (· ≠ .back))
      | none =>
        match builtin? line words with
        | some action => action
        | none =>
          match words with
          | "command" :: program :: args => runWords fuel tested line (program :: args)
          | _ =>
            match Program.ofName? name with
            | some p => runProgram p args
            | none => if Program.bareName name = "sh" then runShellWith fuel args else missing line "" name

/-- Runs a simple command. -/
def evalSimple : Nat → Bool → Nat → List Word → List Redirection → Run Unit
  | 0, _, _, _, _ => runOn
  | fuel + 1, tested, line, words, redirections => do
    modify fun sh => { sh with outputStatus := 0 }
    let given := (words.takeWhile fun w => (assignment? w).isSome).filterMap assignment?
    let args ← expandWords fuel line (words.drop given.length)
    let before ← get
    if before.shown && !args.isEmpty then
      modify fun sh => sh.write 2 (Text.encode ("+ " ++ " ".intercalate args ++ "\n"))
    let isDone ← redirectAll fuel line redirections
    if !isDone then
      restore before redirections
      if args.head?.any specialNames.contains then throw .exit
    else if args.isEmpty then
      assignAll fuel line given
      restore before redirections
      modify fun sh => { sh with status := sh.outputStatus }
    else
      let stop ← attempt (runWords fuel tested line args)
      if args ≠ ["exec"] then restore before redirections
      stopFor stop
    answerSignals fuel (← get).pending
    checkStrict tested

/-- Does what is to be done about signals that came. -/
def answerSignals : Nat → List Nat → Run Unit
  | 0, _ => runOn
  | _, [] => return ()
  | fuel + 1, signal :: rest => do
    let sh ← get
    modify fun sh => { sh with pending := sh.pending.drop 1 }
    evalScript fuel ((sh.traps.lookup signal).getD "").toList
    setStatus sh.status
    answerSignals fuel rest

/-- Runs a command. A command that is `tested` may fail without ending a strict script. -/
def eval : Nat → Bool → Command → Run Unit
  | 0, _, _ => runOn
  | fuel + 1, tested, c =>
    match c with
    | .nothing => return ()
    | .simple line words redirections => evalSimple fuel tested line words redirections
    | .redirected line body redirections => do
      let before ← get
      if ← redirectAll fuel line redirections then
        let stop ← attempt (eval fuel tested body)
        restore before redirections
        stopFor stop
      else restore before redirections
    | .negated body => do
      eval fuel true body
      modify fun sh => { sh with status := if sh.status = 0 then 1 else 0 }
    | .piped first second => do
      let start := (← get).elapsed
      let bytes ← captured (eval fuel tested first)
      let middle := (← get).elapsed
      modify fun sh => { sh with elapsed := start }
      apart do
        modify fun sh => { sh with input := bytes }
        eval fuel tested second
      modify fun sh => { sh with elapsed := if start + ProcessOutput.forever ≤ middle then sh.elapsed else max middle sh.elapsed }
      checkStrict tested
    | .followed first second => do
      eval fuel tested first
      eval fuel tested second
    | .onSuccess first second => do
      eval fuel true first
      if (← get).status = 0 then eval fuel tested second
    | .onFailure first second => do
      eval fuel true first
      if (← get).status ≠ 0 then eval fuel tested second
    | .aside body => do
      let start := (← get).elapsed
      apart do
        modify fun sh => { sh with input := [] }
        eval fuel tested body
      modify fun sh => { sh with status := 0, elapsed := max start sh.elapsed }
    | .apart body => do
      apart (eval fuel tested body)
      checkStrict tested
    | .branch condition yes no => do
      eval fuel true condition
      if (← get).status = 0 then eval fuel tested yes
      else
        setStatus 0
        eval fuel tested no
    | .loop stopsOnSuccess condition body => do
      let before ← get
      modify fun sh => { sh with loops := sh.loops + 1 }
      let stop ← attempt (evalLoop fuel tested stopsOnSuccess condition body 0)
      modify fun sh => { sh with loops := before.loops }
      stopFor stop
    | .each line name words body => do
      let values ← expandWords fuel line words
      let before ← get
      modify fun sh => { sh with loops := sh.loops + 1, status := 0 }
      let stop ← attempt (evalEach fuel tested name values body)
      modify fun sh => { sh with loops := before.loops }
      stopFor stop
    | .choice line subject arms => do
      let text ← expandWhole fuel line subject
      setStatus 0
      evalArms fuel tested line text.toList arms
    | .define name body => modify fun sh => { sh with functions := (name, body) :: sh.functions, status := 0 }

/-- Runs a loop as long as its condition asks for. `last` is the status of the last round. -/
def evalLoop : Nat → Bool → Bool → Command → Command → Nat → Run Unit
  | 0, _, _, _, _, _ => runOn
  | fuel + 1, tested, stopsOnSuccess, condition, body, last => do
    let goesOn ← afterRound (← attempt (eval fuel true condition))
    if goesOn && ((← get).status = 0) ≠ stopsOnSuccess then
      if ← afterRound (← attempt (eval fuel tested body)) then
        evalLoop fuel tested stopsOnSuccess condition body (← get).status
    else setStatus last

/-- Runs a command for each value of a variable. -/
def evalEach : Nat → Bool → String → List String → Command → Run Unit
  | 0, _, _, _, _ => runOn
  | _, _, _, [], _ => return ()
  | fuel + 1, tested, name, value :: rest, body => do
    modify fun sh => sh.bind name value
    if ← afterRound (← attempt (eval fuel tested body)) then evalEach fuel tested name rest body

/-- Runs the first arm that has a pattern for a text. -/
def evalArms : Nat → Bool → Nat → List Char → List (List Word × Command) → Run Unit
  | 0, _, _, _, _ => runOn
  | _, _, _, _, [] => return ()
  | fuel + 1, tested, line, text, (patterns, body) :: rest => do
    let fits ← patterns.anyM fun word => do
      let cs ← expandPattern fuel line word
      return Pattern.fits (Pattern.ofChars (cs.length + 1) cs) text
    if fits then eval fuel tested body else evalArms fuel tested line text rest

/-- Runs the lines of a script, and then complains about the first line that makes no sense. -/
def evalLines : Nat → List Command → Option Fault → Run Unit
  | 0, _, _ => runOn
  | _, [], none => return ()
  | _, [], some fault => abort fault.line ("Syntax error: " ++ fault.nonsense.describe)
  | fuel + 1, c :: rest, fault => do
    eval fuel false c
    evalLines fuel rest fault

/-- Runs a script in the state at hand. -/
def evalScript : Nat → List Char → Run Unit
  | 0, _ => runOn
  | fuel + 1, text => do
    let (lines, fault) := parse text
    evalLines fuel lines fault

/-- Runs a script of its own by the arguments of a shell: a text and its parameters, or a file that holds one. Then what was asked for at its end is done. -/
def runShellWith : Nat → List String → Run Unit
  | 0, _ => runOn
  | fuel + 1, args => do
    let outer ← get
    let (options, rest) := shellOptions args
    let fresh : Shell :=
      { place := outer.place, name := "sh", strict := options.contains 'e', needsValues := options.contains 'u'
        shown := options.contains 'x', input := outer.input, streams := outer.streams, channels := outer.channels
        written := outer.written, elapsed := outer.elapsed }
    let runText (text : List Char) : Run Unit :=
      if options.contains 'n' then evalLines fuel [] (parse text).2 else evalScript fuel text
    let body : Run Unit :=
      match options.find? fun c => !knownOptions.contains c with
      | some c => complain 0 2 ("Illegal option -" ++ String.ofList [c])
      | none =>
        match options.contains 'c', rest with
        | true, text :: parameters => do
          modify fun sh => { sh with name := parameters.headD "sh", parameters := parameters.drop 1 }
          runText text.toList
        | true, [] => complain 0 2 "-c requires an argument"
        | false, path :: parameters => do
          match (← get).place.file? path with
          | some f =>
            if !options.contains 's' then
              modify fun sh => { sh with name := path, parameters := parameters }
              runText f.text.toList
          | none =>
            if !(← get).place.isDirectory path && !options.contains 's' then
              complain 0 2 ("cannot open " ++ path ++ ": No such file")
        | false, [] => runText (Text.decode outer.input).toList
    set fresh
    let stop ← attempt body
    match stop with
    | some (.killed signal) =>
      modify outer.resume
      throw (.killed signal)
    | _ =>
      let sh ← get
      match sh.traps.lookup 0 with
      | some action =>
        modify fun sh => { sh with traps := [] }
        let stop ← attempt (evalScript fuel action.toList)
        if stop.isNone then setStatus sh.status
      | none => pure ()
      modify outer.resume

end

/-- Runs a shell in a workplace. -/
def runShell (w : Workplace) (args : List String) : ProcessOutput :=
  let start : Shell := { place := w, name := "sh" }
  let (result, sh) := (runShellWith maxRounds args).run.run start
  sh.output (match result with
    | .error (.killed signal) => .killed signal
    | _ => .exited sh.status)

end Script

end CodeAtlas
