import CodeAtlas.Number.Binary
import CodeAtlas.Text.Basic
/-!
# Arguments

How arguments are read. Options have a long name, and some a letter; they take a value or are mere flags. A value follows its
option as the next argument, after an equals sign, or right after the letter. Letters of flags may be joined. What is no
option is a plain argument, as is everything after two dashes. Each argument is checked as it is read, so that a request for help counts only if
what stands before it makes sense.
-/

namespace CodeAtlas.CommandLine

/-- What a value has to be. -/
inductive ValueKind where
  | text
  /-- A text that is not empty. -/
  | path
  /-- A number of 64 bits without sign. -/
  | size
  /-- A number of 32 bits that is not negative. -/
  | word
  | fraction
deriving Repr, DecidableEq, Inhabited

/-- A number of 32 bits, perhaps with a sign. -/
def word32Of? (text : String) : Option Nat :=
  (Number.int64? text.toList).bind fun n => if 0 ≤ n && n < UInt32.size then some n.toNat else none

/-- Whether a value makes sense. -/
def ValueKind.accepts (value : String) : ValueKind → Bool
  | .text => true
  | .path => !value.isEmpty
  | .size => (Number.word64? value.toList).isSome
  | .word => (word32Of? value).isSome
  | .fraction => (Number.Binary.ofText? value.toList).isSome

/-- An option, with the kind of its value if it takes one. -/
structure OptionSpec where
  name : String
  letter : Option Char := none
  value : Option ValueKind := some .text
  repeatable : Bool := false
deriving Repr, DecidableEq, Inhabited

/-- Whether an option takes a value. -/
def OptionSpec.takesValue (spec : OptionSpec) : Bool := spec.value.isSome

/-- What a command takes: its options, and how many plain arguments of which kind. -/
structure ArgumentSpec where
  options : List OptionSpec := []
  plainLimit : Option Nat := some 0
  plainKind : ValueKind := .text
deriving Repr, DecidableEq, Inhabited

/-- Why reading stopped. -/
inductive Stop where
  /-- The arguments make no sense. -/
  | usage
  | version
  | help
deriving Repr, DecidableEq, Inhabited

/-- What was read: the options with their values, flags with empty ones, and the plain arguments. -/
structure Matches where
  options : List (String × String) := []
  plain : List String := []
deriving Repr, DecidableEq, Inhabited

namespace Matches

/-- Whether an option was given. -/
def has (m : Matches) (name : String) : Bool := m.options.any (·.1 = name)

/-- The value of an option. -/
def value? (m : Matches) (name : String) : Option String := m.options.lookup name

/-- All values of an option. -/
def values (m : Matches) (name : String) : List String := (m.options.filter (·.1 = name)).map (·.2)

/-- Adds an option. Most may be given once only; two of them end the reading. -/
def add (m : Matches) (spec : OptionSpec) (value : String) : Except Stop Matches :=
  if spec.name = "version" then .error .version
  else if spec.name = "help" then .error .help
  else if m.has spec.name && !spec.repeatable then .error .usage
  else if !spec.value.all (·.accepts value) then .error .usage
  else .ok { m with options := m.options ++ [(spec.name, value)] }

/-- Adds a plain argument. -/
def addPlain (m : Matches) (spec : ArgumentSpec) (arg : String) : Except Stop Matches :=
  if spec.plainLimit.any (· ≤ m.plain.length) || !spec.plainKind.accepts arg then .error .usage
  else .ok { m with plain := m.plain ++ [arg] }

end Matches

/-- Whether an argument is read as an option. -/
def isOption (arg : String) : Bool :=
  match arg.toList with
  | '-' :: _ :: _ => true
  | _ => false

/-- Letters joined in one argument. Gives the option that still needs a value, if there is one. -/
def readLetters (specs : List OptionSpec) (m : Matches) : List Char → Except Stop (Matches × Option OptionSpec)
  | [] => .ok (m, none)
  | c :: rest =>
    match specs.find? (·.letter = some c) with
    | none => .error .usage
    | some spec =>
      if !spec.takesValue then
        match m.add spec "" with
        | .ok m => readLetters specs m rest
        | .error e => .error e
      else
        match rest with
        | [] => .ok (m, some spec)
        | '=' :: value => (m.add spec (String.ofList value)).map (·, none)
        | value => (m.add spec (String.ofList value)).map (·, none)

/-- An option by its long name. Gives the option if it still needs a value. -/
def readLong (specs : List OptionSpec) (m : Matches) (body : List Char) : Except Stop (Matches × Option OptionSpec) :=
  let (name, value) := match Text.splitFirst? '=' body with
    | some (name, value) => (name, some (String.ofList value))
    | none => (body, none)
  match specs.find? (·.name = String.ofList name), value with
  | none, _ => .error .usage
  | some spec, some value => if spec.takesValue then (m.add spec value).map (·, none) else .error .usage
  | some spec, none => if spec.takesValue then .ok (m, some spec) else (m.add spec "").map (·, none)

/-- One argument that is an option. -/
def readOption (specs : List OptionSpec) (m : Matches) (arg : String) : Except Stop (Matches × Option OptionSpec) :=
  match arg.toList with
  | '-' :: '-' :: body => readLong specs m body
  | '-' :: letters => readLetters specs m letters
  | _ => .error .usage

/-- Reads arguments up to the first plain one. Gives what was read and the arguments from there on. -/
def readLeading (specs : List OptionSpec) : Matches → List String → Except Stop (Matches × List String)
  | m, [] => .ok (m, [])
  | m, arg :: rest =>
    if arg = "--" then .error .usage
    else if !isOption arg then .ok (m, arg :: rest)
    else
      match readOption specs m arg with
      | .error e => .error e
      | .ok (m, none) => readLeading specs m rest
      | .ok (m, some spec) =>
        match rest with
        | [] => .error .usage
        | value :: rest =>
          if isOption value then .error .usage
          else
            match m.add spec value with
            | .error e => .error e
            | .ok m => readLeading specs m rest

/-- Reads all arguments. -/
def readAll (spec : ArgumentSpec) : Matches → List String → Except Stop Matches
  | m, [] => .ok m
  | m, arg :: rest =>
    if arg = "--" then rest.foldlM (fun m arg => m.addPlain spec arg) m
    else if !isOption arg then
      match m.addPlain spec arg with
      | .error e => .error e
      | .ok m => readAll spec m rest
    else
      match readOption spec.options m arg with
      | .error e => .error e
      | .ok (m, none) => readAll spec m rest
      | .ok (m, some option) =>
        match rest with
        | [] => .error .usage
        | value :: rest =>
          if isOption value then .error .usage
          else
            match m.add option value with
            | .error e => .error e
            | .ok m => readAll spec m rest

end CodeAtlas.CommandLine
