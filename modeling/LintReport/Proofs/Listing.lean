import LintReport.Proofs.Presentation
import LintReport.Proofs.Selection

/-! The list of calls that stands for a lint run. Listing and making calls go by the same plan, and
a call is listed whether or not its program can be started. But a lint run makes no call at all when
there is nothing to scan, and the list does not look at that: it then names a call, without a path,
for every enabled tool. -/

namespace LintReport

/-- The lines for some calls: each names the tool and gives the command line. -/
def listing (calls : List Invocation) : String :=
  String.join (calls.map fun i => i.tool ++ ": " ++ i.display ++ "\n")

theorem listing_eq_empty_iff {calls : List Invocation} : listing calls = "" ↔ calls = [] := by
  constructor
  · intro h
    cases calls with
    | nil => rfl
    | cons i calls =>
      have hlist := congrArg String.toList h
      rw [listing, List.map_cons, String.join_cons] at hlist
      simp at hlist
  · rintro rfl
    rfl

namespace Plan

variable (p : Plan) (fs : FileSystem)

/-- Every enabled tool is called once, in the order in which the tools are known. -/
theorem tool_calls : (p.calls fs).map Invocation.tool = knownTools.filter p.settings.isEnabled := by
  rw [calls, List.map_map, toolchain, Toolchain.tools_ofSettings]
  exact List.map_id _

theorem calls_eq_nil_iff :
    p.calls fs = [] ↔ ∀ tool ∈ knownTools, p.settings.isEnabled tool = false := by
  rw [← List.map_eq_nil_iff (f := Invocation.tool), tool_calls, List.filter_eq_nil_iff]
  simp only [Bool.not_eq_true]

end Plan

namespace CommandLine

variable {w : World} {args args' : List String} {c c' : CommandLine} {scan : ScanRequest}
  {format : Option Format} {p : Plan}

/-- Listing the calls makes none and gives every call of the plan, one for each enabled tool. These
are the calls that a lint run for the same request makes if there is something to scan. Otherwise
that run makes none, so that the list is right only if no tool is enabled. -/
theorem calls_listed_and_made (hread : read args = .ok c) (hcommand : c.command = .tools scan)
    (hread' : read args' = .ok c') (hcommand' : c'.command = .lint scan format)
    (hconfig : c.config = c'.config) (hplan : c.plan w = .ok p) :
    LintReport.run w args = { status := 0, stdout := listing (p.calls w.files) } ∧
    (p.calls w.files).map Invocation.tool = knownTools.filter p.settings.isEnabled ∧
    (p.paths ≠ [] → (LintReport.run w args').calls = p.calls w.files) ∧
    (p.paths = [] → (LintReport.run w args').calls = []) ∧
    ((LintReport.run w args).stdout = listing (LintReport.run w args').calls ↔
      p.paths ≠ [] ∨ ∀ tool ∈ knownTools, p.settings.isEnabled tool = false) ∧
    (p.paths = [] ↔ scan.paths = [] ∧ p.settings.paths = [] ∧
      w.files.isDirectory (p.directory.join ⟨"src"⟩) = false ∧
      (p.settings.tests = true → w.files.isDirectory (p.directory.join ⟨"tests"⟩) = false)) := by
  have hscan : c.command.scan = c'.command.scan := by rw [hcommand, hcommand']; rfl
  have hplan' : c'.plan w = .ok p := plan_congr hscan hconfig w ▸ hplan
  have hcalls : (LintReport.run w args').calls = if p.paths = [] then [] else p.calls w.files := by
    rw [run_of_lint hread' hcommand' hplan', calls_lint]
  rw [run_of_tools hread hcommand hplan, hcalls]
  refine ⟨rfl, Plan.tool_calls p w.files, fun hpaths => if_neg hpaths, fun hpaths => if_pos hpaths,
    ?_, ?_⟩
  · by_cases hpaths : p.paths = []
    · rw [if_pos hpaths, ← Plan.calls_eq_nil_iff p w.files]
      show listing (p.calls w.files) = "" ↔ _
      rw [listing_eq_empty_iff]
      simp [hpaths]
    · rw [if_neg hpaths]
      exact ⟨fun _ => .inl hpaths, fun _ => rfl⟩
  · rw [plan, hcommand] at hplan
    exact Plan.paths_eq_nil_iff hplan

/-- The command line of a list or of a run, for these tools. -/
def requesting (command : ScanRequest → Command) (quiet : Bool) (tools : List String) :
    CommandLine where
  quiet
  verbose := false
  color := .auto
  config := none
  command := command { tools }

/-- Two tools, and a directory to scan: the list is that of the calls, of which only one can be
made. -/
theorem stdout_tools_scannable :
    read ["tools", "--tool", "isort", "--tool", "flake8"] =
      .ok (requesting .tools false ["isort", "flake8"]) ∧
    read ["lint", "--quiet", "--tool", "isort", "--tool", "flake8"] =
      .ok (requesting (.lint · none) true ["isort", "flake8"]) ∧
    (requesting .tools false ["isort", "flake8"]).plan scannable = .ok scanPlan ∧
    (LintReport.run scannable ["tools", "--tool", "isort", "--tool", "flake8"]).stdout =
      listing (LintReport.run scannable
        ["lint", "--quiet", "--tool", "isort", "--tool", "flake8"]).calls ∧
    (LintReport.run scannable ["tools", "--tool", "isort", "--tool", "flake8"]).stdout =
      "isort: isort /src\nflake8: flake8 /src\n" := by
  have hlist : read ["tools", "--tool", "isort", "--tool", "flake8"] =
      .ok (requesting .tools false ["isort", "flake8"]) := rfl
  have hlint : read ["lint", "--quiet", "--tool", "isort", "--tool", "flake8"] =
      .ok (requesting (.lint · none) true ["isort", "flake8"]) := rfl
  have hroot : Project.findRoot? scannable.files ⟨"/"⟩ = none := by decide +kernel
  have hplan : (requesting .tools false ["isort", "flake8"]).plan scannable = .ok scanPlan :=
    Plan.make_of_ok (Project.root_of_unnamed rfl hroot) rfl
  have hpaths : scanPlan.paths ≠ [] := by decide +kernel
  have htold := calls_listed_and_made hlist rfl hlint rfl rfl hplan
  refine ⟨hlist, hlint, hplan, htold.2.2.2.2.1.2 (.inl hpaths), ?_⟩
  rw [htold.1]
  decide +kernel

/-- A project with nothing to scan: six calls are listed, and none is made. -/
theorem stdout_tools_nothingToScan :
    read ["tools"] = .ok (requesting .tools false []) ∧
    read ["lint"] = .ok (requesting (.lint · none) false []) ∧
    (requesting .tools false []).plan nothingToScan = .ok (.ofConfig nothingToScan {} ⟨"/"⟩ {}) ∧
    (LintReport.run nothingToScan ["tools"]).stdout =
      "isort: isort\nblack: black\nflake8: flake8\nmypy: mypy --strict --explicit-package-bases\n" ++
        "pylint: pylint\npydocstyle: pydocstyle --match=.*\\.py$\n" ∧
    (LintReport.run nothingToScan ["lint"]).calls = [] ∧
    (LintReport.run nothingToScan ["tools"]).stdout ≠
      listing (LintReport.run nothingToScan ["lint"]).calls := by
  have hroot : Project.findRoot? nothingToScan.files ⟨"/"⟩ = some ⟨"/"⟩ := by decide +kernel
  have hplan : (requesting .tools false []).plan nothingToScan =
      .ok (.ofConfig nothingToScan {} ⟨"/"⟩ {}) :=
    Plan.make_of_ok (Project.root_of_unnamed rfl hroot) rfl
  have hcalls : (LintReport.run nothingToScan ["lint"]).calls = [] := by decide +kernel
  have hlisted : (LintReport.run nothingToScan ["tools"]).stdout ≠ listing [] := by decide +kernel
  exact ⟨rfl, rfl, hplan, by decide +kernel, hcalls, hcalls ▸ hlisted⟩

end CommandLine

end LintReport
