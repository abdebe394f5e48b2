import LintReport.Severity

/-!
One finding of one tool, in the form that every tool's findings are brought into.
-/
namespace LintReport

structure Diagnostic where
  severity : Severity
  /-- The path as the tool printed it. -/
  file : String
  /-- Lines and columns count from one; a tool that prints no column means the first. -/
  line : UInt32
  column : UInt32
  /-- The tool that reported it. -/
  source : String
  /-- A short summary, empty when the tool gives none. -/
  title : String
  message : String
  deriving DecidableEq, Repr

namespace Diagnostic

/-- A finding of the given severity without a title. -/
def untitled (severity : Severity) (file : String) (line column : UInt32)
    (source message : String) : Diagnostic :=
  { severity, file, line, column, source, title := "", message }

def error (file : String) (line column : UInt32) (source message : String) : Diagnostic :=
  untitled .error file line column source message

def withTitle (d : Diagnostic) (title : String) : Diagnostic := { d with title }

end Diagnostic

end LintReport
