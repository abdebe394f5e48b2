import LintReport.Text.Blank

/-!
The three severities, from least to most severe, and the reading of the labels that tools print.
-/
namespace LintReport

inductive Severity where
  | notice
  | warning
  | error
  deriving DecidableEq, Repr

namespace Severity

def rank : Severity → Nat
  | notice => 0
  | warning => 1
  | error => 2

instance : LE Severity := ⟨fun a b => a.rank ≤ b.rank⟩

instance (a b : Severity) : Decidable (a ≤ b) := inferInstanceAs (Decidable (a.rank ≤ b.rank))

def label : Severity → String
  | notice => "notice"
  | warning => "warning"
  | error => "error"

/-- A tool's own label, with white space around it allowed: an unknown one is taken as an error. -/
def ofLabel (raw : List Char) : Severity :=
  match String.ofList (Text.trim raw) with
  | "notice" | "note" => notice
  | "warning" => warning
  | _ => error

/-- The severity with exactly this label. -/
def ofLabel? : String → Option Severity
  | "notice" => some notice
  | "warning" => some warning
  | "error" => some error
  | _ => none

@[simp] theorem ofLabel?_label (s : Severity) : ofLabel? s.label = some s := by cases s <;> rfl

end Severity

end LintReport
