import LintReport.Proofs.JsonReport

/-! What a lint run finds and what it shows of that. The form of the report, its colour and how
much is said beside it change what is printed and nothing else: the calls, the findings and the
status of a run are those of its request. -/

namespace LintReport

namespace CommandLine

/-- What a run finds: nothing if there is nothing to scan. -/
def findings (c : CommandLine) (w : World) : List Diagnostic :=
  match c.plan w with
  | .ok p => if p.paths = [] then [] else p.diagnostics w
  | .error _ => []

/-- The line that counts errors, warnings and notices. -/
def resultLine (errors warnings notices : Nat) : String :=
  "   Result: " ++ String.ofList (Text.decimal errors) ++ " error(s), " ++
    String.ofList (Text.decimal warnings) ++ " warning(s), " ++
    String.ofList (Text.decimal notices) ++ " notice(s)\n"

theorem summary_ofList (ds : List Diagnostic) :
    (Tally.ofList ds).summary =
      resultLine (Tally.count .error ds) (Tally.count .warning ds) (Tally.count .notice ds) := rfl

/-- What is said before the findings are counted: which tools run, or that there is nothing to
scan. -/
def preface (c : CommandLine) (w : World) (p : Plan) : String :=
  if p.paths = [] then (c.nothingToLint p).stderr else c.announcement p (p.calls w.files)

section Lint

variable {w : World} {args args' : List String} {c c' : CommandLine} {scan : ScanRequest}
  {format format' : Option Format} {p : Plan}

theorem findings_of_ok (hplan : c.plan w = .ok p) :
    c.findings w = if p.paths = [] then [] else p.diagnostics w := by
  rw [findings, hplan]

theorem calls_lint : (c.lint w p format).calls = if p.paths = [] then [] else p.calls w.files := by
  split
  · rename_i hpaths
    rw [lint_of_no_paths hpaths]
    rfl
  · rename_i hpaths
    rw [lint_of_paths hpaths]

theorem status_lint (hplan : c.plan w = .ok p) :
    (c.lint w p format).status = if ∃ d ∈ c.findings w, d.severity = .error then 1 else 0 := by
  rw [findings_of_ok hplan]
  by_cases hpaths : p.paths = []
  · rw [lint_of_no_paths hpaths]
    simp [hpaths, nothingToLint]
  · rw [lint_of_paths hpaths, if_neg hpaths]

theorem stdout_lint (hplan : c.plan w = .ok p) :
    (c.lint w p format).stdout =
      if p.paths = [] then ""
      else (format.getD (.usual p.ci)).render (c.usesColor w.onTerminal) (c.findings w) := by
  rw [findings_of_ok hplan]
  split
  · rename_i hpaths
    rw [lint_of_no_paths hpaths]
    rfl
  · rename_i hpaths
    rw [lint_of_paths hpaths]

/-- Nothing is said behind the preface but the counts of what is found. -/
theorem stderr_lint (hplan : c.plan w = .ok p) :
    (c.lint w p format).stderr =
      c.preface w p ++
        if c.quiet = true ∨ p.paths = [] ∨ format.getD (.usual p.ci) = .json then ""
        else
          resultLine (Tally.count .error (c.findings w)) (Tally.count .warning (c.findings w))
            (Tally.count .notice (c.findings w)) := by
  rw [findings_of_ok hplan, preface]
  by_cases hpaths : p.paths = []
  · rw [lint_of_no_paths hpaths]
    simp [hpaths]
  · rw [lint_of_paths hpaths]
    simp [hpaths, conclusion, summary_ofList]

/-- Two lint runs with the same request, in the same project, make the same calls, find the same
and end with the same status, however they show it; and what is printed of the findings depends on
the form and the colour of the report alone. If the configuration loads, the status tells whether
there is an error among the findings, and the findings are what the report shows and counts. -/
theorem run_eq_of_same_request (w : World) (hread : read args = .ok c) (hread' : read args' = .ok c')
    (hcommand : c.command = .lint scan format) (hcommand' : c'.command = .lint scan format')
    (hconfig : c.config = c'.config) :
    c.plan w = c'.plan w ∧
    (LintReport.run w args).calls = (LintReport.run w args').calls ∧
    c.findings w = c'.findings w ∧
    (LintReport.run w args).status = (LintReport.run w args').status ∧
    (format = format' → c.color = c'.color →
      (LintReport.run w args).stdout = (LintReport.run w args').stdout) ∧
    ∀ p, c.plan w = .ok p →
      (LintReport.run w args).status =
        (if ∃ d ∈ c.findings w, d.severity = .error then 1 else 0) ∧
      (p.paths ≠ [] →
        (format.getD (.usual p.ci)).report (c.usesColor w.onTerminal)
            (p.toolchain.run (p.outputs w)) =
          ((LintReport.run w args).stdout, Tally.ofList (c.findings w))) ∧
      (p.paths = [] → (LintReport.run w args).stdout = "" ∧ c.findings w = []) ∧
      (LintReport.run w args).stderr =
        c.preface w p ++
          if c.quiet = true ∨ p.paths = [] ∨ format.getD (.usual p.ci) = .json then ""
          else
            resultLine (Tally.count .error (c.findings w)) (Tally.count .warning (c.findings w))
              (Tally.count .notice (c.findings w)) := by
  have hscan : c.command.scan = c'.command.scan := by rw [hcommand, hcommand']; rfl
  have hsame := plan_congr hscan hconfig w
  have hfindings : c.findings w = c'.findings w := by
    rw [findings, findings, hsame]
  cases hplan : c.plan w with
  | error failure =>
    have hrun : LintReport.run w args = LintReport.run w args' := by
      rw [run_of_read hread, run_of_read hread', run_of_error hplan, run_of_error (hsame ▸ hplan)]
    rw [hrun]
    exact ⟨hplan.symm.trans hsame, rfl, hfindings, rfl, fun _ _ => rfl, fun p hp => nomatch hp⟩
  | ok p =>
    have hplan' : c'.plan w = .ok p := hsame ▸ hplan
    rw [run_of_lint hread hcommand hplan, run_of_lint hread' hcommand' hplan']
    refine ⟨hplan'.symm, ?_, hfindings, ?_, ?_, ?_⟩
    · rw [calls_lint, calls_lint]
    · rw [status_lint hplan, status_lint hplan', hfindings]
    · intro hformat hcolor
      rw [stdout_lint hplan, stdout_lint hplan', hformat, hfindings, usesColor, usesColor, hcolor]
    · intro q hq
      obtain rfl : p = q := Except.ok.inj hq
      refine ⟨status_lint hplan, ?_, ?_, stderr_lint hplan⟩
      · intro hpaths
        rw [stdout_lint hplan, findings_of_ok hplan, if_neg hpaths, if_neg hpaths, Format.report_eq]
        rfl
      · intro hpaths
        rw [stdout_lint hplan, findings_of_ok hplan, if_pos hpaths, if_pos hpaths]
        exact ⟨rfl, rfl⟩

end Lint

/-- Arguments for console text on what flake8 finds. -/
def plainArgs : List String := ["lint", "--tool", "flake8"]

/-- Arguments for the same as a coloured list, with nothing said beside it but what is logged. -/
def quietArgs : List String :=
  ["-q", "--color", "always", "lint", "--tool", "flake8", "--verbose", "-f", "github"]

/-- The command line of either. -/
def asking (quiet verbose : Bool) (color : ColorChoice) (format : Option Format) : CommandLine where
  quiet
  verbose
  color
  config := none
  command := .lint { tools := ["flake8"] } format

theorem run_eq_of_same_request_scannable :
    read plainArgs = .ok (asking false false .auto none) ∧
      read quietArgs = .ok (asking true true .always (some .github)) ∧
      (LintReport.run scannable plainArgs).calls = (LintReport.run scannable quietArgs).calls ∧
      (LintReport.run scannable plainArgs).status = 1 ∧
      (LintReport.run scannable quietArgs).status = 1 := by
  have hplain : read plainArgs = .ok (asking false false .auto none) := rfl
  have hquiet : read quietArgs = .ok (asking true true .always (some .github)) := rfl
  have hroot : Project.findRoot? scannable.files ⟨"/"⟩ = none := by decide +kernel
  have hplan : (asking false false .auto none).plan scannable =
      .ok (.ofConfig scannable { tools := ["flake8"] } ⟨"/"⟩ {}) :=
    Plan.make_of_ok (Project.root_of_unnamed rfl hroot) rfl
  have herror : ∃ d ∈ (asking false false .auto none).findings scannable, d.severity = .error := by
    rw [findings_of_ok hplan, if_neg (by decide +kernel), Plan.diagnostics, Toolchain.toList_run]
    decide +kernel
  obtain ⟨-, hcalls, -, hstatus, -, hreport⟩ :=
    run_eq_of_same_request scannable hplain hquiet rfl rfl rfl
  have hone := (hreport _ hplan).1
  rw [if_pos herror] at hone
  exact ⟨hplain, hquiet, hcalls, hone, hstatus.symm.trans hone⟩

end CommandLine

end LintReport
