import CodeAtlas.Number.Digits
/-!
# Processes

What a process leaves behind: what it printed, how it ended, and how long it took. A process ends with a status of its own, or is killed by a signal.
-/

namespace CodeAtlas

namespace Signal

/-- The names of the signals, from the first on. -/
def names : List String :=
  ["HUP", "INT", "QUIT", "ILL", "TRAP", "ABRT", "BUS", "FPE", "KILL", "USR1", "SEGV", "USR2", "PIPE", "ALRM", "TERM", "STKFLT",
    "CHLD", "CONT", "STOP", "TSTP", "TTIN", "TTOU", "URG", "XCPU", "XFSZ", "VTALRM", "PROF", "WINCH", "IO", "PWR", "SYS"]

/-- The signal that asks a process to end. -/
def terminate : Nat := 15

/-- There are fewer signals than this. -/
def bound : Nat := 65

/-- The name of a signal, if it has one. -/
def name? (signal : Nat) : Option String := if signal = 0 then none else names[signal - 1]?

/-- A signal by its number or its name, in capital or small letters. -/
def ofText? (text : String) : Option Nat :=
  match Number.nat? text.toList with
  | some n => if n < bound then some n else none
  | none => (names.findIdx? (· = text.toUpper)).map (· + 1)

/-- Whether a process goes on after a signal. -/
def isHarmless (signal : Nat) : Bool := signal = 0 || ["CHLD", "CONT", "URG", "WINCH"].any fun n => name? signal = some n

/-- Whether a process halts after a signal. -/
def isPause (signal : Nat) : Bool := ["STOP", "TSTP", "TTIN", "TTOU"].any fun n => name? signal = some n

/-- Whether a process cannot choose what to do after a signal. -/
def isInescapable (signal : Nat) : Bool := ["KILL", "STOP"].any fun n => name? signal = some n

end Signal

/-- How a process ended. -/
inductive Ending where
  | exited (status : Nat)
  | killed (signal : Nat)
deriving Repr, DecidableEq

namespace Ending

instance : Inhabited Ending := ⟨.exited 0⟩

/-- The status as a script sees it. -/
def status : Ending → Nat
  | exited status => status
  | killed signal => 128 + signal

/-- The ending in words. -/
def describe : Ending → String
  | exited status => "exit status: " ++ toString status
  | killed signal =>
    "signal: " ++ toString signal ++ ((Signal.name? signal).map fun name => " (SIG" ++ name ++ ")").getD ""

end Ending

/-- What a process printed, how it ended, and how many milliseconds it took. -/
structure ProcessOutput where
  stdout : List UInt8 := []
  stderr : List UInt8 := []
  ending : Ending := .exited 0
  elapsed : Nat := 0
deriving Repr, DecidableEq, Inhabited

namespace ProcessOutput

/-- The status as a script sees it. -/
def status (out : ProcessOutput) : Nat := out.ending.status

/-- One process after another; the ending is that of the second. -/
def append (a b : ProcessOutput) : ProcessOutput :=
  { stdout := a.stdout ++ b.stdout, stderr := a.stderr ++ b.stderr, ending := b.ending, elapsed := a.elapsed + b.elapsed }

instance : Append ProcessOutput := ⟨append⟩

end ProcessOutput

end CodeAtlas
