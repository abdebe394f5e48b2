import LintReport.Run

/-! How a report is made. Whether it is printed record by record while the tools' output is read, or
in one piece when all of it has been read, it shows the records of the run in their order and counts
them all; and a lint run ends with the status that this count gives it. -/

namespace LintReport

/-! ### Counting -/

namespace Tally

/-- How many of some diagnostics have a severity. -/
def count (s : Severity) (ds : List Diagnostic) : Nat := ds.countP fun d => d.severity = s

/-- The tally of some diagnostics. -/
def ofList (ds : List Diagnostic) : Tally where
  diagnostics := ds.toArray
  errors := count .error ds
  warnings := count .warning ds
  notices := count .notice ds

theorem count_append (s : Severity) (ds es : List Diagnostic) :
    count s (ds ++ es) = count s ds + count s es := List.countP_append

theorem count_singleton (s : Severity) (d : Diagnostic) :
    count s [d] = if d.severity = s then 1 else 0 := by
  simp [count]

theorem add_ofList (ds : List Diagnostic) (d : Diagnostic) :
    (ofList ds).add d = ofList (ds ++ [d]) := by
  cases h : d.severity <;> simp [add, ofList, count_append, count_singleton, h]

theorem addAll_ofList (ds es : List Diagnostic) : (ofList ds).addAll es = ofList (ds ++ es) := by
  induction es generalizing ds with
  | nil => rw [List.append_nil]; rfl
  | cons d es ih =>
    show ((ofList ds).add d).addAll es = ofList (ds ++ d :: es)
    rw [add_ofList, ih, List.append_assoc, List.singleton_append]

/-- What has been added to nothing is what there is. -/
theorem addAll_empty (ds : List Diagnostic) : empty.addAll ds = ofList ds := addAll_ofList [] ds

theorem hasErrors_ofList (ds : List Diagnostic) :
    (ofList ds).hasErrors = true ↔ ∃ d ∈ ds, d.severity = .error := by
  simp [hasErrors, ofList, count, List.countP_pos_iff]

end Tally

/-! ### Printing while reading -/

namespace Toolchain.Run

theorem toList_of_none {r t : Run} (h : r.next = (none, t)) : r.toList = [] := by
  rw [toList]
  split <;> simp_all

theorem toList_of_some {r r' : Run} {d : Diagnostic} (h : r.next = (some d, r')) :
    r.toList = d :: r'.toList := by
  rw [toList]
  split <;> simp_all

/-- One poll after the other prints and counts what the list of all records does. -/
theorem interleave_eq (shown : Diagnostic → String) (r : Run) (printed : String)
    (findings : Tally) :
    r.interleave shown printed findings =
      (printed ++ String.join (r.toList.map shown), findings.addAll r.toList) := by
  fun_induction interleave shown r printed findings with
  | case1 r printed findings t hnext =>
    rw [toList_of_none hnext, List.map_nil, String.join_nil, String.append_empty]
    rfl
  | case2 r printed findings d r' hnext ih =>
    rw [ih, toList_of_some hnext, List.map_cons, String.join_cons, String.append_assoc]
    rfl

end Toolchain.Run

namespace Format

/-- However the report is made, it shows the records of the run and counts them all. -/
theorem report_eq (format : Format) (color : Bool) (r : Toolchain.Run) :
    format.report color r = (format.render color r.toList, Tally.ofList r.toList) := by
  cases format <;>
    simp [report, render, Toolchain.Run.interleave_eq, Tally.addAll_empty, Tally.ofList]

end Format

namespace CommandLine

variable {c : CommandLine} {w : World} {p : Plan} {format : Option Format}

theorem lint_of_no_paths (hpaths : p.paths = []) : c.lint w p format = c.nothingToLint p := by
  rw [lint, if_pos hpaths]

/-- The outcome when there is something to scan, in terms of what is found. -/
theorem lint_of_paths (hpaths : p.paths ≠ []) :
    c.lint w p format =
      { status := if ∃ d ∈ p.diagnostics w, d.severity = .error then 1 else 0
        stdout := (format.getD (.usual p.ci)).render (c.usesColor w.onTerminal) (p.diagnostics w)
        stderr := c.announcement p (p.calls w.files) ++
          c.conclusion (format.getD (.usual p.ci)) (Tally.ofList (p.diagnostics w))
        calls := p.calls w.files } := by
  have hreport (format : Format) (color : Bool) :
      format.report color (p.toolchain.run (p.outputs w)) =
        (format.render color (p.diagnostics w), Tally.ofList (p.diagnostics w)) :=
    format.report_eq color _
  simp only [lint, if_neg hpaths, hreport, Tally.hasErrors_ofList]

end CommandLine

end LintReport
