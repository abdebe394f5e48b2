import LintReport.Config.Basic
import LintReport.Project.Sources
import LintReport.Toolchain
import LintReport.World

/-!
How the tools are called, and what their calls leave behind.
-/
namespace LintReport

structure Invocation where
  /-- The name under which the parsers know the tool. -/
  tool : String
  program : String
  args : List String
  /-- The paths, which stand behind the arguments. -/
  paths : List Path
  env : Dict String
  deriving DecidableEq

namespace Invocation

/-- The arguments of a tool, unless the configuration gives others. -/
def usualArgs : String → List String
  | "mypy" => ["--strict", "--explicit-package-bases"]
  | "pydocstyle" => ["--match=.*\\.py$"]
  | _ => []

/-- What makes a formatter print its changes in place of making them. -/
def diffArgs : String → List String
  | "isort" => ["--diff", "--quiet"]
  | "black" => ["--diff", "--no-color", "--quiet"]
  | _ => []

/-- A search path that consists of these directories, if none of them has the separator in its
name. -/
def searchPath? (directories : List Path) : Option String :=
  if directories.any fun p => ':' ∈ p.text.toList then none
  else some (String.intercalate ":" (directories.map Path.text))

/-- The source roots among the paths, as the module search path of mypy. -/
def moduleSearchPath? (fs : FileSystem) (paths : List Path) : Option String :=
  match searchPath? (paths.filter (Project.isSourceRoot fs)) with
  | some joined => if joined = "" then none else some joined
  | none => none

/-- The call of a tool over some paths. Mypy is given the source roots among them as its search
path, and their packages to check. -/
def build (fs : FileSystem) (config : Config) (paths : List Path) (ci : Bool) (tool : String) :
    Invocation :=
  let settings := (config.tool? tool).getD {}
  let args := settings.args.getD (usualArgs tool) ++ (if ci then diffArgs tool else [])
  let found := if tool = "mypy" then moduleSearchPath? fs paths else none
  let env := match found with
    | some joined => Dict.empty.insert "MYPYPATH" joined
    | none => Dict.empty
  { tool
    program := settings.program.getD tool
    args
    paths := if tool = "mypy" then Project.modules fs paths else paths
    env := env.overlay settings.env }

/-- The call as a command line. -/
def display (i : Invocation) : String :=
  String.intercalate " " (i.program :: i.args ++ i.paths.map Path.text)

/-- The most bytes that a text handed to a program may have. -/
def textLimit : Nat := 131071

/-- A text that can be handed to a program is not too long and does not contain the character NUL.
-/
def passes (s : String) : Bool := '\x00' ∉ s.toList && s.utf8ByteSize ≤ textLimit

/-- Whether a program can be given all that the call has for it. A variable is handed over in one
text with its value. -/
def isPassable (i : Invocation) : Bool :=
  passes i.program && i.args.all passes && i.paths.all (fun p => passes p.text) &&
    i.env.entries.all fun (name, value) => passes (name ++ "=" ++ value)

/-- Runs the tool in a directory; `none` if it cannot be started. -/
def run? (w : World) (directory : Path) (i : Invocation) : Option ToolOutput := do
  guard (i.isPassable && w.files.isDirectory directory)
  let place ← (w.files.locate directory).toOption
  let program ← w.program? (i.env.find? "PATH") i.program
  let args := i.args ++ i.paths.map Path.text
  let completion := program { args, env := i.env, directory := place.location }
  return {
    exitCode := completion.ending.code
    stdout := completion.stdout
    stderr := completion.stderr }

end Invocation

end LintReport
