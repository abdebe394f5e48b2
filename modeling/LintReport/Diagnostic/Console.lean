import LintReport.Diagnostic
import LintReport.Text.Line
import LintReport.Text.Numeral

/-!
A diagnostic as console text: a headline as compilers print it, and the message below it behind a
bar.

  `src/x.py:5:1: error[black]: Black alteration`
  `    | +added`

Without a title the first line of the message is the headline.
-/
namespace LintReport.Diagnostic.Console

/-- Bold in the colour of the severity. -/
def colorCode : Severity → String
  | .error => "1;31"
  | .warning => "1;33"
  | .notice => "1;36"

def severityText (color : Bool) (s : Severity) : List Char :=
  if color then
    "\x1b[".toList ++ (colorCode s).toList ++ "m".toList ++ s.label.toList ++ "\x1b[0m".toList
  else s.label.toList

/-- The summary in the headline and the lines below it. -/
def layout (d : Diagnostic) : List Char × List (List Char) :=
  let body := Text.lines d.message.toList
  if d.title = "" then (body.headD [], body.tail) else (d.title.toList, body)

def bar : List Char := "    | ".toList

def headline (color : Bool) (d : Diagnostic) : List Char :=
  d.file.toList ++ ":".toList ++ Text.decimal d.line.toNat ++ ":".toList ++
    Text.decimal d.column.toNat ++ ": ".toList ++ severityText color d.severity ++ "[".toList ++
    d.source.toList ++ "]: ".toList ++ (layout d).1

def render (color : Bool) (d : Diagnostic) : String :=
  String.ofList (Text.unlines (headline color d :: (layout d).2.map (bar ++ ·)))

end LintReport.Diagnostic.Console
