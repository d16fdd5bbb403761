import CodeAtlas.Extractor.Script.Run
/-!
# Launching programs

How a program is found by its name, and why it may not run at all: its name leads nowhere, or to what is no program.
-/

namespace CodeAtlas

/-- Why a program cannot be run. -/
inductive LaunchFault where
  | noSuchFile
  | notAllowed
  | notADirectory
  | nameTooLong
  | argumentsTooLong
  | nullCharacter
deriving Repr, DecidableEq, Inhabited

/-- What the operating system says about the fault. -/
def LaunchFault.describe : LaunchFault → String
  | .noSuchFile => "No such file or directory (os error 2)"
  | .notAllowed => "Permission denied (os error 13)"
  | .notADirectory => "Not a directory (os error 20)"
  | .nameTooLong => "File name too long (os error 36)"
  | .argumentsTooLong => "Argument list too long (os error 7)"
  | .nullCharacter => "nul byte found in provided data"

namespace Launch

/-- The longest name of a file, in bytes. -/
def maxName : Nat := 255

/-- The longest argument, in bytes, with the null that ends it. -/
def maxArgument : Nat := 128 * 1024

/-- Why a name leads to no program. -/
def faultOf (w : Workplace) (name : String) : LaunchFault :=
  if ((Text.splitOn '/' name.toList).any fun part => maxName < (Text.encode (String.ofList part)).length) then .nameTooLong
  else if name.isEmpty then .noSuchFile
  else if name = "." || name = ".." then .notAllowed
  else if !name.toList.contains '/' then .noSuchFile
  else if w.passesFile name then .notADirectory
  else if w.isThere name then .notAllowed
  else .noSuchFile

/-- Whether a text has a null character. -/
def hasNull (text : String) : Bool := text.toList.any (·.toNat = 0)

end Launch

/-- Runs a program by its name, without input. -/
def launch (t : Tree) (name : String) (args : List String) : Except LaunchFault ProcessOutput :=
  let w := Workplace.ofTree t
  let found :=
    if Program.bareName name = "sh" then some (Script.runShell w args) else (Program.ofName? name).map (Program.run w [] args)
  if (name :: args).any Launch.hasNull then .error .nullCharacter
  else
    match found with
    | none => .error (Launch.faultOf w name)
    | some out =>
      if args.any fun arg => Launch.maxArgument ≤ (Text.encode arg).length then .error .argumentsTooLong else .ok out

end CodeAtlas
