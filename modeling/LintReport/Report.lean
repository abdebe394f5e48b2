import LintReport.CommandLine.Basic
import LintReport.Diagnostic.Console
import LintReport.Diagnostic.Json
import LintReport.Diagnostic.WorkflowCommand
import LintReport.Tally
import LintReport.Toolchain

/-!
The report of a run of the toolchain in each of its forms, and the line that counts what it shows.
-/
namespace LintReport

/-- Reads a run to its end. Each record is printed and counted before the next one is asked for. -/
def Toolchain.Run.interleave (shown : Diagnostic → String) (r : Run) (printed : String)
    (findings : Tally) : String × Tally :=
  match _next : r.next with
  | (none, _) => (printed, findings)
  | (some d, r') => interleave shown r' (printed ++ shown d) (findings.add d)
termination_by (r.pending.length, r.remaining)
decreasing_by
  rcases next_decreases _next with h | ⟨h, h'⟩
  · exact Prod.Lex.left _ _ h
  · exact h ▸ Prod.Lex.right _ h'

namespace Format

/-- The form of a report for which none is asked. -/
def usual (ci : Bool) : Format := if ci then github else text

/-- The report of a list of diagnostics: one after the other, or all of them as one array. -/
def render (color : Bool) (ds : List Diagnostic) : Format → String
  | text => String.join (ds.map (Diagnostic.Console.render color))
  | github => String.join (ds.map fun d => Diagnostic.WorkflowCommand.render d ++ "\n")
  | json => Diagnostic.listToText ds ++ "\n"

/-- Makes the report of a run. Console text and workflow commands are printed as the records come;
for the array, the run is read first. -/
def report (color : Bool) (r : Toolchain.Run) : Format → String × Tally
  | text => r.interleave (Diagnostic.Console.render color) "" .empty
  | github => r.interleave (fun d => Diagnostic.WorkflowCommand.render d ++ "\n") "" .empty
  | json =>
    let findings := (r.interleave (fun _ => "") "" .empty).2
    (Diagnostic.listToText findings.diagnostics.toList ++ "\n", findings)

end Format

/-- How many diagnostics there are of each severity. -/
def Tally.summary (t : Tally) : String :=
  let count (n : Nat) := String.ofList (Text.decimal n)
  "   Result: " ++ count t.errors ++ " error(s), " ++ count t.warnings ++ " warning(s), " ++
    count t.notices ++ " notice(s)\n"

end LintReport
