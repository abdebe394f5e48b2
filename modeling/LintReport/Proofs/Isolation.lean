import Mathlib.Data.List.Basic
import LintReport.Proofs.Attribution
import LintReport.Proofs.MergedRun
import LintReport.Proofs.Utf8

/-! Tools do not interfere. What a run reports for a tool rests on the bytes that the tool's parsers
read and on nothing else: not on exit codes, on channels that no parser of the tool reads, or on
what another tool left behind. -/

namespace LintReport.Toolchain

variable {o o' outputs : ToolOutputs} {p : Parser} {tool : String}

/-- The bytes that a parser reads, if its tool left any output behind. -/
def input (outputs : ToolOutputs) (p : Parser) : Option Bytes :=
  (outputs p.tool).map (·.channel p.channel)

/-- Two runs' outputs are the same to the parsers of a tool. -/
def SameFor (t : Toolchain) (tool : String) (o o' : ToolOutputs) : Prop :=
  ∀ p ∈ t.parsers, p.tool = tool → input o p = input o' p

instance (t : Toolchain) (tool : String) (o o' : ToolOutputs) : Decidable (t.SameFor tool o o') :=
  inferInstanceAs (Decidable (∀ p ∈ t.parsers, p.tool = tool → input o p = input o' p))

/-- The outputs when one tool could not be started. -/
def without (outputs : ToolOutputs) (tool : String) : ToolOutputs :=
  fun name => if name = tool then none else outputs name

/-! ### One parser -/

theorem recordsOf_eq_input (outputs : ToolOutputs) (p : Parser) :
    recordsOf outputs p = (input outputs p).elim [] p.records := by
  unfold recordsOf input
  cases outputs p.tool <;> rfl

theorem recordsOf_congr (h : input o p = input o' p) : recordsOf o p = recordsOf o' p := by
  rw [recordsOf_eq_input, recordsOf_eq_input, h]

theorem source_of_mem_recordsOf {d : Diagnostic} (h : d ∈ recordsOf outputs p) :
    d.source = p.tool := by
  rw [recordsOf_eq_input] at h
  cases hp : input outputs p with
  | none =>
    rw [hp] at h
    cases h
  | some bytes =>
    rw [hp] at h
    exact Parser.source_of_mem_records h

/-- A parser's records are kept or dropped together when they are chosen by their source. -/
theorem filter_source_recordsOf (outputs : ToolOutputs) (p : Parser) (keep : String → Bool) :
    (recordsOf outputs p).filter (fun d => keep d.source) =
      if keep p.tool then recordsOf outputs p else [] := by
  have hsource : ∀ d ∈ recordsOf outputs p, keep d.source = keep p.tool := by
    intro d hd
    rw [source_of_mem_recordsOf hd]
  rw [List.filter_congr hsource]
  cases keep p.tool <;> simp

theorem recordsOf_without (outputs : ToolOutputs) (tool : String) (p : Parser) :
    recordsOf (without outputs tool) p = if p.tool = tool then [] else recordsOf outputs p := by
  rw [recordsOf_eq_input, recordsOf_eq_input, input, without]
  split
  · rfl
  · rfl

/-! ### All parsers -/

/-- Choosing records by their source is choosing parsers by their tool. -/
theorem filter_source_toList_run (t : Toolchain) (outputs : ToolOutputs) (keep : String → Bool) :
    (t.run outputs).toList.filter (fun d => keep d.source) =
      t.parsers.flatMap fun p => if keep p.tool then recordsOf outputs p else [] := by
  rw [toList_run, List.filter_flatMap]
  exact List.flatMap_congr fun p _ => filter_source_recordsOf outputs p keep

/-- What a run reports for a tool is a matter of what that tool's parsers read, and a tool that
leaves nothing behind takes away its own records and no others. -/
theorem filter_source_run_eq_of_sameFor (t : Toolchain) (tool : String) :
    (∀ o o' : ToolOutputs, t.SameFor tool o o' →
      (t.run o).toList.filter (fun d => d.source = tool) =
        (t.run o').toList.filter (fun d => d.source = tool)) ∧
    ∀ o : ToolOutputs, (t.run (without o tool)).toList =
      (t.run o).toList.filter (fun d => d.source ≠ tool) := by
  constructor
  · intro o o' h
    rw [t.filter_source_toList_run o (· = tool), t.filter_source_toList_run o' (· = tool)]
    refine List.flatMap_congr fun p hp => ?_
    by_cases htool : p.tool = tool
    · rw [recordsOf_congr (h p hp htool)]
    · simp [htool]
  · intro o
    rw [t.filter_source_toList_run o (· ≠ tool), toList_run]
    refine List.flatMap_congr fun p _ => ?_
    rw [recordsOf_without]
    by_cases htool : p.tool = tool <;> simp [htool]

/-- Outputs with one finding of flake8, who ended with this code, printed this to its error channel,
and ran beside a mypy that printed these bytes. -/
def besideMypy (code : Int) (stderr mypy : Bytes) : ToolOutputs := fun name =>
  if name = "flake8" then
    some { exitCode := code, stdout := Text.Utf8.encode "a.py:1:2: E9".toList, stderr }
  else if name = "mypy" then some { exitCode := 1, stdout := mypy, stderr := [] }
  else none

/-- Another exit code, an error message and damaged output of mypy leave the finding alone. -/
theorem filter_source_run_besideMypy :
    (ofSettings {}).SameFor "flake8" (besideMypy 0 [] []) (besideMypy 2 [0x21] [0xFF, 0x3A]) ∧
      ((ofSettings {}).run (besideMypy 0 [] [])).toList.filter (fun d => d.source = "flake8") =
        ((ofSettings {}).run (besideMypy 2 [0x21] [0xFF, 0x3A])).toList.filter
          (fun d => d.source = "flake8") :=
  have h : (ofSettings {}).SameFor "flake8" (besideMypy 0 [] [])
      (besideMypy 2 [0x21] [0xFF, 0x3A]) := by decide
  ⟨h, ((ofSettings {}).filter_source_run_eq_of_sameFor "flake8").1 _ _ h⟩

end LintReport.Toolchain
