import CodeAtlas.CommandLine.Grammar
import CodeAtlas.Number.Binary
/-!
# Requests

What a command line asks for. Every command has its own options, and some options may stand before or after the name of the command.
-/

namespace CodeAtlas.CommandLine

/-- The name of the program and its version. -/
def versionText : String := "repodex 0.0.1"

/-- A command with its arguments. -/
inductive Command where
  | init (force : Bool)
  | index (full : Bool) (paths : List String)
  | search (query : String) (categories : List String) (limit : Nat)
  | snippet (target symbol file : Option String) (start stop : Option Nat)
  | tests (path : String)
  | summary (path : String)
  | similar (path : String) (limit : Nat) (least : Number.Binary)
  | tables
  | table (name : String)
  | associations (table : String)
  | validations (table : String)
  | nodes (filter kind : Option String) (limit : Nat)
  | neighbors (node : String) (edges : List String) (direction : String) (depth : Nat)
  | explain (node : String)
  | status
deriving Repr, Inhabited

/-- A command, and what holds for all commands. -/
structure Request where
  config : Option String := none
  database : Option String := none
  root : Option String := none
  json : Bool := false
  command : Command
deriving Repr, Inhabited

/-- Options of every command. -/
def globalOptions : List OptionSpec :=
  [{ name := "verbose", letter := some 'v', value := none },
    { name := "config", letter := some 'c', value := some .path },
    { name := "database", letter := some 'd', value := some .path },
    { name := "root", letter := some 'r', value := some .path },
    { name := "json", value := none },
    { name := "help", letter := some 'h', value := none }]

/-- Options before the name of the command. -/
def leadingOptions : List OptionSpec :=
  globalOptions ++ [{ name := "version", letter := some 'V', value := none }]

/-- The most results of a command. -/
def limitOption : OptionSpec := { name := "limit", letter := some 'l', value := some .size }

/-- What a command of its own takes, by its name. -/
def ownArguments? : String → Option ArgumentSpec
  | "init" => some { options := [{ name := "force", value := none }] }
  | "index" => some { options := [{ name := "full", value := none }], plainLimit := none, plainKind := .path }
  | "search" =>
    some { options := [{ name := "category", letter := some 'C', repeatable := true }, limitOption], plainLimit := some 1 }
  | "snippet" =>
    some {
      options := [{ name := "symbol", letter := some 's' }, { name := "file" }, { name := "start", value := some .word },
        { name := "end", value := some .word }]
      plainLimit := some 1 }
  | "tests" => some { plainLimit := some 1 }
  | "summary" => some { plainLimit := some 1 }
  | "similar" => some { options := [limitOption, { name := "min", value := some .fraction }], plainLimit := some 1 }
  | "tables" => some {}
  | "table" => some { plainLimit := some 1 }
  | "associations" => some { plainLimit := some 1 }
  | "validations" => some { plainLimit := some 1 }
  | "nodes" => some { options := [{ name := "kind", letter := some 'k' }, limitOption], plainLimit := some 1 }
  | "neighbors" =>
    some {
      options := [{ name := "edge", letter := some 'e', repeatable := true }, { name := "direction" },
        { name := "depth", value := some .word }]
      plainLimit := some 1 }
  | "explain" => some { plainLimit := some 1 }
  | "status" => some {}
  | _ => none

/-- What a command takes, by its name. -/
def arguments? (name : String) : Option ArgumentSpec :=
  (ownArguments? name).map fun own => { own with options := own.options ++ globalOptions }

/-- A value that makes no sense where it is given. -/
def required {α : Type} : Option α → Except Stop α
  | some a => .ok a
  | none => .error .usage

/-- A number given by an option, or its default. -/
def limitOf (m : Matches) (default : Nat) : Except Stop Nat :=
  match m.value? "limit" with
  | none => .ok default
  | some text => required (Number.word64? text.toList)

/-- A number of 32 bits given by an option, if it is. -/
def word32 (m : Matches) (name : String) : Except Stop (Option Nat) :=
  match m.value? name with
  | none => .ok none
  | some text => (required (word32Of? text)).map some

/-- The only plain argument. -/
def single (m : Matches) : Except Stop String :=
  match m.plain with
  | [arg] => .ok arg
  | _ => .error .usage

/-- The only plain argument, if there is one. -/
def optional (m : Matches) : Except Stop (Option String) :=
  match m.plain with
  | [] => .ok none
  | [arg] => .ok (some arg)
  | _ => .error .usage

/-- No plain argument. -/
def nothing (m : Matches) : Except Stop Unit := if m.plain.isEmpty then .ok () else .error .usage

/-- Where a snippet is looked for: by path or by symbol and not by both, and a file only together with a symbol. -/
def snippetOf (m : Matches) : Except Stop Command := do
  let target ← optional m
  if m.has "symbol" && target.isSome then throw .usage
  if m.has "file" && !m.has "symbol" then throw .usage
  return .snippet target (m.value? "symbol") (m.value? "file") (← word32 m "start") (← word32 m "end")

/-- The command of a name with its arguments. -/
def commandOf (name : String) (m : Matches) : Except Stop Command :=
  match name with
  | "init" => do
    nothing m
    return .init (m.has "force")
  | "index" => .ok (.index (m.has "full") m.plain)
  | "search" => do return .search (← single m) (m.values "category") (← limitOf m 20)
  | "snippet" => snippetOf m
  | "tests" => do return .tests (← single m)
  | "summary" => do return .summary (← single m)
  | "similar" => do
    let least ← required (Number.Binary.ofText? ((m.value? "min").getD "0.7").toList)
    return .similar (← single m) (← limitOf m 5) least
  | "tables" => do
    nothing m
    return .tables
  | "table" => do return .table (← single m)
  | "associations" => do return .associations (← single m)
  | "validations" => do return .validations (← single m)
  | "nodes" => do return .nodes (← optional m) (m.value? "kind") (← limitOf m 50)
  | "neighbors" => do
    let depth ← word32 m "depth"
    return .neighbors (← single m) (m.values "edge") ((m.value? "direction").getD "out") (depth.getD 1)
  | "explain" => do return .explain (← single m)
  | "status" => do
    nothing m
    return .status
  | _ => .error .usage

/-- A path given by an option before or after the name of the command, where the latter counts. -/
def pathOption (leading own : Matches) (name : String) : Option String := (own.value? name).or (leading.value? name)

/-- Whether help can be had about something: about everything, about a command, or about help. -/
def isHelpTopic : List String → Bool
  | [] => true
  | [name] => name = "help" || (ownArguments? name).isSome
  | _ => false

/-- What a command line asks for, or why it asks for nothing. -/
def Request.ofArguments (args : List String) : Except Stop Request := do
  match ← readLeading leadingOptions {} args with
  | (_, []) => throw .usage
  | (leading, name :: rest) =>
    if name = "help" then throw (if isHelpTopic rest then .help else .usage)
    let m ← readAll (← required (arguments? name)) {} rest
    return {
      config := pathOption leading m "config"
      database := pathOption leading m "database"
      root := pathOption leading m "root"
      json := leading.has "json" || m.has "json"
      command := ← commandOf name m }

end CodeAtlas.CommandLine
