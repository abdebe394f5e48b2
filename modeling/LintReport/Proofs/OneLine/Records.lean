import LintReport.Proofs.Cursor
import LintReport.Proofs.Polling

/-! Formats in which each line is read for itself. The records of some output are those of its
lines, in order, and the lines without a record are counted. -/

namespace LintReport.Parser

open Polling

section Poll
variable {format : OneLineFormat} {line : List Char} (rest : List (List Char)) (skipped : Nat)

/-- A line without a record is passed over within a poll, and counted. -/
theorem OneLineStream.next_of_none (h : format.record? line = none) :
    Stream.next (.oneLine { format, rest := line :: rest, skipped }) =
      Stream.next (.oneLine { format, rest, skipped := skipped + 1 }) := by
  simp only [Stream.next, OneLineStream.next, OneLineStream.nextFrom, h]

/-- A line with a record ends the poll, and nothing behind it is looked at. -/
theorem OneLineStream.next_of_some {d : Diagnostic} (h : format.record? line = some d) :
    Stream.next (.oneLine { format, rest := line :: rest, skipped }) =
      (some d, .oneLine { format, rest, skipped }) := by
  simp only [Stream.next, OneLineStream.next, OneLineStream.nextFrom, h]
  rfl

end Poll

/-- Polling the lines of a format gives the record of each line that has one. -/
theorem OneLineStream.exhausts (format : OneLineFormat) (rest : List (List Char)) (skipped : Nat) :
    Exhausts Stream.next (.oneLine { format, rest, skipped }) (rest.filterMap format.record?)
      (.oneLine {
        format
        rest := []
        skipped := skipped + rest.countP fun line => (format.record? line).isNone }) := by
  induction rest generalizing skipped with
  | nil => exact .done rfl rfl
  | cons line rest ih =>
    cases h : format.record? line with
    | none =>
      rw [List.filterMap_cons_none h, List.countP_cons_of_pos (by rw [h]; rfl), Nat.add_comm _ 1,
        ← Nat.add_assoc]
      exact (ih (skipped + 1)).congr (next_of_none rest skipped h)
    | some d =>
      rw [List.filterMap_cons_some h, List.countP_cons_of_neg (by rw [h]; exact Bool.false_ne_true)]
      exact .more (next_of_some rest skipped h) (ih skipped)

namespace OneLineFormat

variable (format : OneLineFormat) (output : Bytes)

/-- The records are the lines, each read for itself. -/
theorem records_eq_filterMap :
    (oneLine format).records output =
      ((oneLine format).lines output).filterMap format.record? :=
  (records_of_exhausts (oneLine format) output (OneLineStream.exhausts format _ 0)).1

theorem skipped_exhausted :
    ((oneLine format).stream output).exhausted.skipped =
      ((oneLine format).lines output).countP fun line => (format.record? line).isNone := by
  have h := OneLineStream.exhausts format ((oneLine format).lines output) 0
  have hskipped := congrArg Stream.skipped (records_of_exhausts (oneLine format) output h).2
  exact hskipped.trans (Nat.zero_add _)

end OneLineFormat

end LintReport.Parser
