import LintReport.CommandLine.Basic

/-!
What the program says when it does not carry out a command line.
-/
namespace LintReport.CommandLine

def programName : String := "sieve"

def version : String := "0.1.0"

def usageLine : Scope → String
  | .program => "Usage: " ++ programName ++ " [OPTIONS] <COMMAND>\n"
  | .lint => "Usage: " ++ programName ++ " lint [OPTIONS] [PATHS]...\n"
  | .tools => "Usage: " ++ programName ++ " tools [OPTIONS] [PATHS]...\n"

def Key.summary : Key → String
  | .switch .quiet => "Suppress all output except diagnostics and errors"
  | .switch .verbose => "Enable verbose logging"
  | .switch .ci => "Run in CI mode (formatters report diffs); implied by GITHUB_ACTIONS"
  | .switch .noTests => "Do not scan the tests directory"
  | .switch .help => "Print help"
  | .switch .version => "Print version"
  | .setting .color => "Control colored output [auto, always, never]"
  | .setting .config => "Path to a configuration file, or to the directory of a project"
  | .setting .tool => "Only run this tool; may be given more than once"
  | .setting .format => "Output format [text, github, json] (default: github in CI, else text)"

/-- How an option is written. -/
def Key.spelling (k : Key) : String :=
  let short := match k.letter? with
    | some letter => "-" ++ letter.toString ++ ", "
    | none => "    "
  let value := match k with
    | .switch _ => ""
    | .setting _ => " <VALUE>"
  short ++ "--" ++ k.name ++ value

def commandsText : String :=
  "\nCommands:\n" ++
  "  lint   Run every enabled tool and report its diagnostics\n" ++
  "  tools  List the enabled tools and the commands that would run\n" ++
  "  help   Print this message or the help of a command\n"

def helpText (s : Scope) : String :=
  let commands := match s with
    | .program => commandsText
    | _ => ""
  usageLine s ++ commands ++ "\nOptions:\n" ++
    String.join (s.keys.map fun k => "  " ++ k.spelling ++ "\n          " ++ k.summary ++ "\n")

def versionText : String := programName ++ " " ++ version ++ "\n"

/-- What is wrong, in words. -/
def Refusal.reason : Refusal → String
  | .help _ | .version => ""
  | .noArguments | .missingCommand => "a command is required: lint, tools or help"
  | .unknownCommand name => "unrecognized command '" ++ name ++ "'"
  | .unknownArgument argument => "unexpected argument '" ++ argument ++ "'"
  | .missingValue s => "a value is required for '--" ++ (Key.setting s).name ++ "'"
  | .invalidValue s value =>
    "invalid value '" ++ value ++ "' for '--" ++ (Key.setting s).name ++ "'"
  | .unexpectedValue s => "unexpected value for '--" ++ (Key.switch s).name ++ "'"
  | .repeated k => "'--" ++ k.name ++ "' cannot be used multiple times"

/-- All that is printed. -/
def Refusal.text : Refusal → String
  | .help about => helpText about
  | .version => versionText
  | .noArguments => helpText .program
  | refusal => "error: " ++ refusal.reason ++ "\n\n" ++ usageLine .program

end LintReport.CommandLine
