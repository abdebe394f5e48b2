import LintReport.FileSystem

/-!
What can be wrong with a configuration.
-/
namespace LintReport

inductive ConfigError where
  | unreadable (failure : ReadFailure)
  /-- The text is not TOML, or its values are not settings. -/
  | malformed
  | unknownTool (name : String)
  /-- The program of a tool is blank. -/
  | blankProgram (tool : String)
  deriving DecidableEq, Repr

def ConfigError.message : ConfigError → String
  | unreadable failure => "failed to read configuration: " ++ failure.message
  | malformed => "failed to parse configuration: not TOML, or not the settings of a project"
  | unknownTool name => "unknown tool '" ++ name ++ "'"
  | blankProgram tool => "validation error: tools." ++ tool ++ ".program must not be empty"

end LintReport
