import LintReport.Dict
import LintReport.FileSystem

/-!
What a run meets: files, programs, and the little that it asks of its environment.
-/
namespace LintReport

/-- How a program came to its end. -/
inductive Ending where
  | exited (code : Nat)
  | killed
  deriving DecidableEq, Repr

/-- The exit code; a program that was killed has none of its own. -/
def Ending.code : Ending → Int
  | exited code => code
  | killed => -1

/-- A call of a program: its arguments, the variables set for it, and the directory it runs in. -/
structure Call where
  args : List String
  env : Dict String
  directory : Location
  deriving DecidableEq

/-- What a program wrote and how it ended. -/
structure Completion where
  ending : Ending
  stdout : Bytes
  stderr : Bytes
  deriving DecidableEq, Repr

/-- What a program does when it is called, in so far as it writes and ends. The files that it
changes are no part of this: a run sees the files throughout as they are when it begins, also behind
a formatter that rewrites them. -/
abbrev Program := Call → Completion

structure World where
  files : FileSystem
  /-- The program that is found under a name, on the search path given or on the usual one. -/
  program? : Option String → String → Option Program
  /-- Whether the run is part of a GitHub Actions workflow. -/
  inWorkflow : Bool
  /-- Whether standard output is a terminal. -/
  onTerminal : Bool

end LintReport
