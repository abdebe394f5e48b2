import LintReport.Dict
import LintReport.Diff.Scanner

/-!
The settings of a project: which tools run over which paths, and how single tools are called.
-/
namespace LintReport

/-- The tools that can be run, in the order in which they always run. -/
def knownTools : List String := ["isort", "black", "flake8", "mypy", "pylint", "pydocstyle"]

/-- The section `lint`. -/
structure LintSettings where
  /-- The tools to run; all of them when there is no list. Their order in it does not matter. -/
  tools : Option (List String) := none
  /-- The paths to scan; the usual directories of a project when there are none. -/
  paths : List String := []
  /-- Whether the usual directories include `tests`. -/
  tests : Bool := true
  trailing : Diff.Trailing := .discard
  deriving DecidableEq, Repr

def LintSettings.isEnabled (s : LintSettings) (tool : String) : Bool :=
  match s.tools with
  | some tools => tool ∈ tools
  | none => true

/-- A section `tools.<name>`, which changes how that tool is called. -/
structure ToolSettings where
  /-- The program to run in place of the tool's own. -/
  program : Option String := none
  /-- The arguments to give in place of the tool's usual ones. -/
  args : Option (List String) := none
  /-- Variables to set in the environment of the tool. -/
  env : Dict String := .empty
  deriving DecidableEq

structure Config where
  lint : LintSettings := {}
  tools : Dict ToolSettings := .empty
  deriving DecidableEq

/-- The section of a tool, if there is one. -/
def Config.tool? (c : Config) (tool : String) : Option ToolSettings := c.tools.find? tool

end LintReport
