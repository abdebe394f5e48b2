import LintReport.CommandLine.Reader
import LintReport.CommandLine.Usage
import LintReport.Plan
import LintReport.Report

/-!
A run of the program: from the world that it meets and its arguments to what it prints, the calls
that it makes, and its exit status. The status of a lint run is that of its findings alone,
however they are reported.
-/
namespace LintReport

structure Outcome where
  status : Nat
  stdout : String := ""
  /-- What the program says beside its report. The log, which goes there too, is not part of it. -/
  stderr : String := ""
  /-- The calls of tools that the run makes, in their order, those that cannot be started
  included. -/
  calls : List Invocation := []
  deriving DecidableEq

namespace CommandLine

def usesColor (c : CommandLine) (onTerminal : Bool) : Bool :=
  match c.color with
  | .auto => onTerminal
  | .always => true
  | .never => false

/-- The plan for the command of a command line. -/
def plan (c : CommandLine) (w : World) : Except Project.Failure Plan :=
  Plan.make w (c.config.map Path.mk) c.command.scan

/-- The run when there is nothing to scan. -/
def nothingToLint (c : CommandLine) (p : Plan) : Outcome where
  status := 0
  stderr :=
    if c.quiet then ""
    else
      "warning: nothing to lint: no paths given and no src/ or tests/ in " ++
        p.directory.text ++ "\n"

/-- The lines that announce the calls. -/
def announcement (c : CommandLine) (p : Plan) (calls : List Invocation) : String :=
  if c.quiet || p.ci then "" else String.join (calls.map fun i => "   Running " ++ i.tool ++ "\n")

/-- The line that counts the findings. A JSON report goes without it. -/
def conclusion (c : CommandLine) (format : Format) (findings : Tally) : String :=
  if c.quiet || format = .json then "" else findings.summary

/-- The run that carries out a plan and reports the findings. -/
def lint (c : CommandLine) (w : World) (p : Plan) (format : Option Format) : Outcome :=
  if p.paths = [] then c.nothingToLint p
  else
    let calls := p.calls w.files
    let format := format.getD (.usual p.ci)
    let (shown, findings) :=
      format.report (c.usesColor w.onTerminal) (p.toolchain.run (p.outputs w))
    { status := if findings.hasErrors then 1 else 0
      stdout := shown
      stderr := c.announcement p calls ++ c.conclusion format findings
      calls }

/-- The run that lists the calls of a plan and makes none of them. -/
def listCalls (w : World) (p : Plan) : Outcome where
  status := 0
  stdout := String.join ((p.calls w.files).map fun i => i.tool ++ ": " ++ i.display ++ "\n")

/-- The run for a command line. -/
def run (c : CommandLine) (w : World) : Outcome :=
  match c.plan w with
  | .error failure => { status := 1, stderr := "error: " ++ failure.message ++ "\n" }
  | .ok p =>
    match c.command with
    | .lint _ format => c.lint w p format
    | .tools _ => listCalls w p

/-- The run for a command line that is not carried out. -/
def Refusal.run (r : Refusal) : Outcome :=
  if r.status = 0 then { status := 0, stdout := r.text }
  else { status := r.status, stderr := r.text }

end CommandLine

/-- The run for the arguments of the program. -/
def run (w : World) (args : List String) : Outcome :=
  match CommandLine.read args with
  | .ok c => c.run w
  | .error refusal => refusal.run

end LintReport
