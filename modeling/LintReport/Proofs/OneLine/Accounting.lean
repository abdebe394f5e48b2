import Mathlib.Data.List.Basic
import LintReport.Proofs.OneLine.Records

/-! What each poll accounts for, where each line is read for itself. A poll that returns a record has
read the lines up to the one that is the record, and no further; of these, as many are records as
have been returned, and the others are the skipped ones. Lines and polls are counted from zero. -/

namespace LintReport.Parser

open Polling

namespace OneLineFormat

variable {format : OneLineFormat} {line : List Char}

/-- The places of the records among some lines. -/
def places (format : OneLineFormat) (ls : List (List Char)) : List Nat :=
  ls.findIdxs fun line => (format.record? line).isSome

theorem pairwise_places (format : OneLineFormat) (ls : List (List Char)) :
    (format.places ls).Pairwise (· < ·) := List.pairwise_findIdxs

theorem length_places (format : OneLineFormat) (ls : List (List Char)) :
    (format.places ls).length = (ls.filterMap format.record?).length := by
  rw [places, List.length_findIdxs, List.length_filterMap_eq_countP]

theorem places_cons_of_none (h : format.record? line = none) (ls : List (List Char)) :
    format.places (line :: ls) = (format.places ls).map (· + 1) := by
  rw [places, List.findIdxs_cons, h, Option.isSome_none, if_neg Bool.false_ne_true,
    List.findIdxs_start]
  rfl

theorem places_cons_of_some {d : Diagnostic} (h : format.record? line = some d)
    (ls : List (List Char)) :
    format.places (line :: ls) = 0 :: (format.places ls).map (· + 1) := by
  rw [places, List.findIdxs_cons, h, if_pos Option.isSome_some, List.findIdxs_start]
  rfl

/-- The poll that reaches a place returns the record of the line there, and leaves the stream right
behind that line. -/
theorem reaches_place {ls : List (List Char)} {k i : Nat} (h : (format.places ls)[k]? = some i)
    (skipped : Nat) :
    k ≤ i ∧
      (∃ line d, ls[i]? = some line ∧ format.record? line = some d ∧
        (ls.filterMap format.record?)[k]? = some d) ∧
      after Stream.next (.oneLine { format, rest := ls, skipped }) (k + 1) =
        .oneLine { format, rest := ls.drop (i + 1), skipped := skipped + (i - k) } := by
  induction ls generalizing k i skipped with
  | nil => cases h
  | cons line ls ih =>
    cases hline : format.record? line with
    | none =>
      -- The line is passed over within the first poll, and all places move up by one.
      rw [places_cons_of_none hline, List.getElem?_map, Option.map_eq_some_iff] at h
      obtain ⟨j, hj, rfl⟩ := h
      obtain ⟨hkj, hrecord, hafter⟩ := ih hj (skipped + 1)
      rw [after_congr (OneLineStream.next_of_none ls skipped hline) (Nat.succ_pos k), hafter,
        List.filterMap_cons_none hline, Nat.add_assoc, Nat.add_comm 1, ← Nat.sub_add_comm hkj]
      exact ⟨Nat.le_succ_of_le hkj, hrecord, rfl⟩
    | some d =>
      rw [places_cons_of_some hline] at h
      cases k with
      | zero =>
        obtain rfl : 0 = i := Option.some.inj h
        rw [after, OneLineStream.next_of_some ls skipped hline, List.filterMap_cons_some hline]
        exact ⟨Nat.le_refl 0, ⟨line, d, rfl, hline, rfl⟩, rfl⟩
      | succ k =>
        rw [List.getElem?_cons_succ, List.getElem?_map, Option.map_eq_some_iff] at h
        obtain ⟨j, hj, rfl⟩ := h
        obtain ⟨hkj, hrecord, hafter⟩ := ih hj skipped
        rw [after, OneLineStream.next_of_some ls skipped hline, hafter,
          List.filterMap_cons_some hline, Nat.add_sub_add_right]
        exact ⟨Nat.succ_le_succ hkj, hrecord, rfl⟩

/-- Lines are records or are skipped. -/
theorem length_records_add_skipped (format : OneLineFormat) (ls : List (List Char)) :
    (ls.filterMap format.record?).length +
      ls.countP (fun line => (format.record? line).isNone) = ls.length := by
  rw [List.length_filterMap_eq_countP, List.length_eq_countP_add_countP (fun line =>
    (format.record? line).isSome)]
  simp only [Bool.not_eq_true, Option.isSome_eq_false_iff, Bool.decide_eq_true]

/-- The records stand at increasing places among the lines. The poll numbered `k` returns the record
of the line at the `k`th place, behind which the stream then stands; with the `k` records before it,
the skipped lines make up all lines before it. From the poll on that follows the last record, nothing
is returned, no line is left, and the records and the skipped lines together are all lines. -/
theorem polls_account_for_lines (format : OneLineFormat) (output : Bytes) :
    let ls := (oneLine format).lines output
    let start := (oneLine format).stream output
    let count := ((oneLine format).records output).length
    (format.places ls).Pairwise (· < ·) ∧ (format.places ls).length = count ∧
    (∀ k i, (format.places ls)[k]? = some i →
      (∃ line d, ls[i]? = some line ∧ format.record? line = some d ∧
        answer Stream.next start k = some d) ∧
      ∃ skipped, skipped + k = i ∧ after Stream.next start (k + 1) =
        .oneLine { format, rest := ls.drop (i + 1), skipped }) ∧
    ∀ k, count ≤ k →
      answer Stream.next start k = none ∧
      ∃ skipped, count + skipped = ls.length ∧
        after Stream.next start (k + 1) = .oneLine { format, rest := [], skipped } := by
  intro ls start count
  have hstart : start = .oneLine { format, rest := ls, skipped := 0 } := stream_eq _ output
  rw [hstart]
  have hcount : (ls.filterMap format.record?).length = count :=
    congrArg List.length (format.records_eq_filterMap output).symm
  have hexhausts := OneLineStream.exhausts format ls 0
  refine ⟨format.pairwise_places ls, (format.length_places ls).trans hcount,
    fun k i hplace => ?_, fun k hk => ?_⟩
  · obtain ⟨hki, ⟨line, d, hline, hrecord, hd⟩, hafter⟩ := reaches_place hplace 0
    refine ⟨⟨line, d, hline, hrecord, ?_⟩, i - k, Nat.sub_add_cancel hki, ?_⟩
    · rw [← hd]
      exact hexhausts.answer_eq k
    · rw [← Nat.zero_add (i - k)]
      exact hafter
  · rw [← hcount] at hk ⊢
    refine ⟨?_, _, format.length_records_add_skipped ls, ?_⟩
    · rw [← List.getElem?_eq_none hk]
      exact hexhausts.answer_eq k
    · rw [← Nat.zero_add (ls.countP _)]
      exact hexhausts.after_eq (Nat.lt_succ_of_le hk)

end OneLineFormat

end LintReport.Parser
