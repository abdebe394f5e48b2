import LintReport.Config.Basic

/-!
What a command line asks for, and the options that may stand in it. The program has the commands
`lint` and `tools`; some options may stand before the command as well as behind it.
-/
namespace LintReport

/-- When the report is coloured; `auto` means on a terminal. -/
inductive ColorChoice where
  | auto
  | always
  | never
  deriving DecidableEq, Repr

def ColorChoice.ofName? : String → Option ColorChoice
  | "auto" => some auto
  | "always" => some always
  | "never" => some never
  | _ => none

/-- The forms of a report. -/
inductive Format where
  | text
  | github
  | json
  deriving DecidableEq, Repr

def Format.ofName? : String → Option Format
  | "text" => some text
  | "github" => some github
  | "json" => some json
  | _ => none

/-- What to scan, and how, in so far as the command line says so. -/
structure ScanRequest where
  ci : Bool := false
  noTests : Bool := false
  /-- The tools to run; those of the configuration when there are none. -/
  tools : List String := []
  paths : List String := []
  deriving DecidableEq, Repr

inductive Command where
  /-- Runs the tools and reports what they find. -/
  | lint (scan : ScanRequest) (format : Option Format)
  /-- Lists the calls of the tools. -/
  | tools (scan : ScanRequest)
  deriving DecidableEq, Repr

def Command.scan : Command → ScanRequest
  | lint scan _ => scan
  | tools scan => scan

structure CommandLine where
  quiet : Bool
  /-- Whether the log says more. No log is kept here, so that nothing else depends on it. -/
  verbose : Bool
  color : ColorChoice
  /-- A configuration file, or the directory of a project. -/
  config : Option String
  command : Command
  deriving DecidableEq, Repr

namespace CommandLine

/-- Where an option stands: before the command, or behind it. -/
inductive Scope where
  | program
  | lint
  | tools
  deriving DecidableEq, Repr

/-- An option without a value. -/
inductive Switch where
  | quiet
  | verbose
  | ci
  | noTests
  | help
  | version
  deriving DecidableEq, Repr

/-- An option with a value. -/
inductive Setting where
  | color
  | config
  | tool
  | format
  deriving DecidableEq, Repr

inductive Key where
  | switch (s : Switch)
  | setting (s : Setting)
  deriving DecidableEq, Repr

namespace Key

/-- The name that stands behind two dashes. -/
def name : Key → String
  | switch .quiet => "quiet"
  | switch .verbose => "verbose"
  | switch .ci => "ci"
  | switch .noTests => "no-tests"
  | switch .help => "help"
  | switch .version => "version"
  | setting .color => "color"
  | setting .config => "config"
  | setting .tool => "tool"
  | setting .format => "format"

/-- The letter that stands behind one dash. -/
def letter? : Key → Option Char
  | switch .quiet => some 'q'
  | switch .verbose => some 'v'
  | switch .help => some 'h'
  | switch .version => some 'V'
  | setting .format => some 'f'
  | _ => none

end Key

namespace Scope

/-- The options that may stand in a scope. -/
def keys (s : Scope) : List Key :=
  let everywhere : List Key :=
    [.switch .quiet, .switch .verbose, .switch .help, .setting .color, .setting .config]
  let scan : List Key := [.switch .ci, .switch .noTests, .setting .tool]
  match s with
  | program => everywhere ++ [.switch .version]
  | lint => everywhere ++ scan ++ [.setting .format]
  | tools => everywhere ++ scan

def named? (s : Scope) (name : String) : Option Key := s.keys.find? (·.name = name)

def lettered? (s : Scope) (letter : Char) : Option Key := s.keys.find? (·.letter? = some letter)

end Scope

/-- Why a command line is not carried out. Help and the version are asked for in this way too. -/
inductive Refusal where
  | help (about : Scope)
  | version
  /-- Nothing at all was given. -/
  | noArguments
  | missingCommand
  | unknownCommand (name : String)
  | unknownArgument (argument : String)
  | missingValue (setting : Setting)
  | invalidValue (setting : Setting) (value : String)
  /-- A switch with a value. -/
  | unexpectedValue (switch : Switch)
  /-- An option that may be given once in its scope and was given again. -/
  | repeated (key : Key)
  deriving DecidableEq, Repr

/-- The exit status: asking for help or the version is no fault. -/
def Refusal.status : Refusal → Nat
  | help _ | version => 0
  | _ => 2

end CommandLine

end LintReport
