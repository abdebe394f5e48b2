import LintReport.Run

/-! Plans by their parts. A plan is made of the project's directory and its configuration and fails
only with one of these two; all else in it is computed from them, the world and the request. -/

namespace LintReport

/-- A world in which a run begins at the root of these files and finds no programs. -/
def World.ofEntries (entries : List (String × FileTree)) : World where
  files := { tree := .directory entries, cwd := .root }
  program? := fun _ _ => none
  inWorkflow := false
  onTerminal := false

/-- Without a name, the project is looked for from the working directory upwards. -/
theorem Project.root_of_unnamed {fs : FileSystem} {cwd : Path} {found : Option Path}
    (hcwd : fs.cwdPath? = some cwd) (hfound : Project.findRoot? fs cwd = found) :
    Project.root fs none = .ok (found.getD cwd) := by
  simp only [Project.root, hcwd, hfound]

namespace Plan

/-- The plan for a scan of a project whose directory and configuration are known. -/
def ofConfig (w : World) (scan : ScanRequest) (directory : Path) (config : Config) : Plan where
  directory
  config
  settings := config.lint.narrow scan
  ci := scan.inCi w.inWorkflow
  paths := Project.sources w.files directory (scan.paths.map Path.mk)
    ((config.lint.narrow scan).paths.map Path.mk) (config.lint.narrow scan).tests

variable {w : World} {named : Option Path} {scan : ScanRequest} {directory : Path}

theorem make_of_ok {config : Config} (hroot : Project.root w.files named = .ok directory)
    (hconfig : Project.loadConfig w.files named directory = .ok config) :
    make w named scan = .ok (ofConfig w scan directory config) := by
  simp only [make, bind, Except.bind, hroot, hconfig]
  rfl

theorem make_of_error {failure : Project.Failure}
    (hroot : Project.root w.files named = .ok directory)
    (hconfig : Project.loadConfig w.files named directory = .error failure) :
    make w named scan = .error failure := by
  simp only [make, bind, Except.bind, hroot, hconfig]

theorem exists_of_make {p : Plan} (h : make w named scan = .ok p) :
    ∃ directory config, Project.root w.files named = .ok directory ∧
      Project.loadConfig w.files named directory = .ok config ∧
      p = ofConfig w scan directory config := by
  cases hroot : Project.root w.files named with
  | error failure =>
    rw [make, hroot] at h
    cases h
  | ok directory =>
    cases hconfig : Project.loadConfig w.files named directory with
    | error failure =>
      rw [make_of_error hroot hconfig] at h
      cases h
    | ok config =>
      rw [make_of_ok hroot hconfig, Except.ok.injEq] at h
      exact ⟨directory, config, rfl, hconfig, h.symm⟩

end Plan

namespace CommandLine

variable {w : World} {args : List String} {c c' : CommandLine} {scan : ScanRequest} {p : Plan}

/-- The plan is that of the request, in the project that is named, whatever the command. -/
theorem plan_congr (hscan : c.command.scan = c'.command.scan) (hconfig : c.config = c'.config)
    (w : World) : c.plan w = c'.plan w := by
  rw [plan, plan, hscan, hconfig]

theorem run_of_read (hread : read args = .ok c) : LintReport.run w args = c.run w := by
  rw [LintReport.run, hread]

theorem run_of_lint {format : Option Format} (hread : read args = .ok c)
    (hcommand : c.command = .lint scan format) (hplan : c.plan w = .ok p) :
    LintReport.run w args = c.lint w p format := by
  rw [run_of_read hread]
  simp only [run, hplan, hcommand]

theorem run_of_tools (hread : read args = .ok c) (hcommand : c.command = .tools scan)
    (hplan : c.plan w = .ok p) : LintReport.run w args = listCalls w p := by
  rw [run_of_read hread]
  simp only [run, hplan, hcommand]

theorem run_of_error {failure : Project.Failure} (h : c.plan w = .error failure) :
    c.run w = { status := 1, stderr := "error: " ++ failure.message ++ "\n" } := by
  rw [run, h]

end CommandLine

end LintReport
