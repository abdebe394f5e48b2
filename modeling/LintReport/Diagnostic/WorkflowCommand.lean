import LintReport.Diagnostic
import LintReport.Text.Numeral

/-!
A diagnostic as a workflow command of a GitHub Actions log: one line

  `::error file=pkg/a.py,line=10,col=3,title=pylint::C0114 missing docstring`

in which percent signs and line ends are written as escapes, and in the properties also the colon
and the comma that delimit them.
-/
namespace LintReport.Diagnostic.WorkflowCommand

def escapeMessageChar : Char → List Char
  | '%' => ['%', '2', '5']
  | '\r' => ['%', '0', 'D']
  | '\n' => ['%', '0', 'A']
  | c => [c]

def escapePropertyChar : Char → List Char
  | ':' => ['%', '3', 'A']
  | ',' => ['%', '2', 'C']
  | c => escapeMessageChar c

def escapeMessage (s : String) : List Char := s.toList.flatMap escapeMessageChar

def escapeProperty (s : String) : List Char := s.toList.flatMap escapePropertyChar

/-- The title, or the tool where there is no title. -/
def shownTitle (d : Diagnostic) : String := if d.title = "" then d.source else d.title

def render (d : Diagnostic) : String :=
  String.ofList <|
    "::".toList ++ d.severity.label.toList ++ " file=".toList ++ escapeProperty d.file ++
    ",line=".toList ++ Text.decimal d.line.toNat ++ ",col=".toList ++ Text.decimal d.column.toNat ++
    ",title=".toList ++ escapeProperty (shownTitle d) ++ "::".toList ++ escapeMessage d.message

end LintReport.Diagnostic.WorkflowCommand
