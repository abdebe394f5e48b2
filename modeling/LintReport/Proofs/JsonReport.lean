import LintReport.Proofs.Json.Records
import LintReport.Proofs.MergedRun
import LintReport.Proofs.Planning
import LintReport.Proofs.Reporting
import LintReport.Proofs.Utf8

/-! The JSON report of a run. Where there is something to scan, what is printed is one array, and
decoding it gives the diagnostics of the run, whatever the tools printed. Where there is nothing to
scan, the run ends before its format is looked at, and prints no array at all. -/

namespace LintReport

namespace Diagnostic

/-- One JSON array and a line end, the array being that of these diagnostics. -/
def IsReport (out : String) (ds : List Diagnostic) : Prop :=
  ∃ inside, out = "[" ++ inside ++ "]\n" ∧ listOfText? ("[" ++ inside ++ "]") = some ds

theorem exists_listToText (ds : List Diagnostic) :
    ∃ inside, listToText ds = "[" ++ inside ++ "]" := by
  obtain ⟨inside, h⟩ := ((canonical_array ds).spells_pretty 0).exists_inside
  refine ⟨String.ofList inside, String.toList_inj.1 ?_⟩
  rw [listToText, String.toList_ofList, h]
  simp

theorem isReport_listToText (ds : List Diagnostic) : IsReport (listToText ds ++ "\n") ds := by
  obtain ⟨inside, h⟩ := exists_listToText ds
  refine ⟨inside, ?_, ?_⟩
  · rw [h, String.append_assoc]
    rfl
  · rw [← h, listOfText?_listToText]

theorem not_isReport_empty (ds : List Diagnostic) : ¬ IsReport "" ds := by
  rintro ⟨inside, h, -⟩
  have hlist := congrArg String.toList h
  simp at hlist

end Diagnostic

/-- There is nothing to scan if neither the command line nor the configuration names a path and the
usual directories are not there. -/
theorem Plan.paths_eq_nil_iff {w : World} {named : Option Path} {scan : ScanRequest} {p : Plan}
    (h : Plan.make w named scan = .ok p) :
    p.paths = [] ↔ scan.paths = [] ∧ p.settings.paths = [] ∧
      w.files.isDirectory (p.directory.join ⟨"src"⟩) = false ∧
      (p.settings.tests = true → w.files.isDirectory (p.directory.join ⟨"tests"⟩) = false) := by
  obtain ⟨directory, config, -, -, rfl⟩ := Plan.exists_of_make h
  simp only [Plan.ofConfig, Project.sources]
  by_cases hexplicit : scan.paths = []
  · by_cases hconfigured : (config.lint.narrow scan).paths = []
    · cases htests : (config.lint.narrow scan).tests <;> simp [hexplicit, hconfigured]
    · simp [hexplicit, hconfigured]
  · simp [hexplicit]

namespace CommandLine

variable {w : World} {args : List String} {c : CommandLine} {scan : ScanRequest} {p : Plan}

/-- The report in JSON is the array of the run's diagnostics if there is something to scan.
Otherwise nothing is printed, which is no array of any diagnostics. -/
theorem json_report_of_run (hread : read args = .ok c)
    (hcommand : c.command = .lint scan (some .json)) (hplan : c.plan w = .ok p) :
    (p.paths ≠ [] → Diagnostic.IsReport (LintReport.run w args).stdout (p.diagnostics w)) ∧
    (p.paths = [] → (LintReport.run w args).stdout = "" ∧
      ∀ ds, ¬ Diagnostic.IsReport (LintReport.run w args).stdout ds) ∧
    (p.paths = [] ↔ scan.paths = [] ∧ p.settings.paths = [] ∧
      w.files.isDirectory (p.directory.join ⟨"src"⟩) = false ∧
      (p.settings.tests = true → w.files.isDirectory (p.directory.join ⟨"tests"⟩) = false)) := by
  rw [run_of_lint hread hcommand hplan]
  refine ⟨?_, ?_, ?_⟩
  · intro hpaths
    rw [lint_of_paths hpaths]
    exact Diagnostic.isReport_listToText _
  · intro hpaths
    rw [lint_of_no_paths hpaths]
    exact ⟨rfl, Diagnostic.not_isReport_empty⟩
  · rw [plan, hcommand] at hplan
    exact Plan.paths_eq_nil_iff hplan

/-- A project with a file to scan, in which flake8 finds something that needs escapes, and isort
cannot be started. -/
def scannable : World :=
  { World.ofEntries [("src", .directory [("a.py", .file [])])] with
    program? := fun _ name =>
      if name = "flake8" then
        some fun _ => {
          ending := .exited 1
          stdout := Text.Utf8.encode "src/a.py:3:7: Q000 \"\\\t\" in\nsrc/a.py:9: W391\n".toList
          stderr := [] }
      else none }

/-- The command line of a JSON report on what these tools find. -/
def askingForJson (tools : List String) : CommandLine where
  quiet := false
  verbose := false
  color := .auto
  config := none
  command := .lint { tools } (some .json)

/-- The plan for its two tools. -/
def scanPlan : Plan := .ofConfig scannable { tools := ["isort", "flake8"] } ⟨"/"⟩ {}

theorem isReport_run_scannable :
    (askingForJson ["isort", "flake8"]).plan scannable = .ok scanPlan ∧
      scanPlan.paths ≠ [] ∧ scanPlan.diagnostics scannable ≠ [] ∧
      Diagnostic.IsReport
        (LintReport.run scannable
          ["lint", "--tool", "isort", "--tool", "flake8", "--format", "json"]).stdout
        (scanPlan.diagnostics scannable) := by
  have hpaths : scanPlan.paths ≠ [] := by decide +kernel
  have hfound : scanPlan.diagnostics scannable ≠ [] := by
    rw [Plan.diagnostics, Toolchain.toList_run]
    decide +kernel
  have hroot : Project.findRoot? scannable.files ⟨"/"⟩ = none := by decide +kernel
  have hplan : (askingForJson ["isort", "flake8"]).plan scannable = .ok scanPlan :=
    Plan.make_of_ok (Project.root_of_unnamed rfl hroot) rfl
  exact ⟨hplan, hpaths, hfound, (json_report_of_run rfl rfl hplan).1 hpaths⟩

/-- A project with nothing to scan. -/
def nothingToScan : World := .ofEntries [("sieve.toml", .file [])]

/-- The configuration loads, and there is no report. -/
theorem not_isReport_run_nothingToScan :
    read ["lint", "--format", "json"] = .ok (askingForJson []) ∧
      (askingForJson []).plan nothingToScan = .ok (.ofConfig nothingToScan {} ⟨"/"⟩ {}) ∧
      ¬ ∃ ds, Diagnostic.IsReport
        (LintReport.run nothingToScan ["lint", "--format", "json"]).stdout ds := by
  have hroot : Project.findRoot? nothingToScan.files ⟨"/"⟩ = some ⟨"/"⟩ := by decide +kernel
  refine ⟨rfl, Plan.make_of_ok (Project.root_of_unnamed rfl hroot) rfl, ?_⟩
  rintro ⟨ds, h⟩
  have hout : (LintReport.run nothingToScan ["lint", "--format", "json"]).stdout = "" := by
    decide +kernel
  rw [hout] at h
  exact Diagnostic.not_isReport_empty ds h

end CommandLine

end LintReport
