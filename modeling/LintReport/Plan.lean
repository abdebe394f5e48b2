import LintReport.CommandLine.Basic
import LintReport.Invocation
import LintReport.Project.Root

/-!
What is decided before any tool is called: where the project is, which settings hold, which paths
are scanned, and how each tool is called over them.
-/
namespace LintReport

/-- The settings of the configuration as the command line changes them. -/
def LintSettings.narrow (s : LintSettings) (scan : ScanRequest) : LintSettings :=
  { s with
    tools := if scan.tools = [] then s.tools else some scan.tools
    tests := s.tests && !scan.noTests }

/-- A run is a CI run when the command line says so, or when a workflow starts it. -/
def ScanRequest.inCi (scan : ScanRequest) (inWorkflow : Bool) : Bool := scan.ci || inWorkflow

structure Plan where
  /-- The directory of the project, in which the tools run. -/
  directory : Path
  config : Config
  settings : LintSettings
  ci : Bool
  /-- The paths to scan. -/
  paths : List Path
  deriving DecidableEq

namespace Plan

/-- The plan for a scan, in the project that is named or found. -/
def make (w : World) (named : Option Path) (scan : ScanRequest) : Except Project.Failure Plan := do
  let directory ← Project.root w.files named
  let config ← Project.loadConfig w.files named directory
  let settings := config.lint.narrow scan
  let explicit := scan.paths.map Path.mk
  let configured := settings.paths.map Path.mk
  return {
    directory
    config
    settings
    ci := scan.inCi w.inWorkflow
    paths := Project.sources w.files directory explicit configured settings.tests }

def toolchain (p : Plan) : Toolchain := .ofSettings p.settings

/-- The calls of the enabled tools, in the order of the toolchain. All of them are built from the
files as they are before the first tool runs. The program builds each call when its turn comes, so
this is what it does unless a tool that ran earlier has changed what a later call is built from:
which of the paths are source roots, and their packages. -/
def calls (p : Plan) (fs : FileSystem) : List Invocation :=
  p.toolchain.tools.map (Invocation.build fs p.config p.paths p.ci)

/-- What the tools leave behind; a tool that cannot be started leaves nothing. -/
def outputs (p : Plan) (w : World) : ToolOutputs :=
  let ran := (p.calls w.files).filterMap fun i =>
    (i.run? w p.directory).map fun output => (i.tool, output)
  fun tool => ran.lookup tool

/-- What the tools find. -/
def diagnostics (p : Plan) (w : World) : List Diagnostic := (p.toolchain.run (p.outputs w)).toList

end Plan

end LintReport
