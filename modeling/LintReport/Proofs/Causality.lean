import LintReport.Proofs.Diff.Trailing
import LintReport.Proofs.Docstyle.Reading

/-! Output that comes in parts. Two parsers carry something from line to line: a header that waits for
its message, and the file and the hunk that a diff is in. Behind whole lines they go on from there, so
that the records of what has come are the first records of all that will come. A diff whose open hunk
is flushed is not read so, since its last record may still grow. -/

namespace LintReport

open Polling Text.Utf8

namespace Parser

/-- A record that polling has given stands at the same place in all records that begin like these. -/
theorem Stream.answer_of_isPrefix {s t : Stream} (h : s.toList <+: t.toList) {k : Nat}
    {d : Diagnostic} (hk : answer Stream.next s k = some d) : answer Stream.next t k = some d := by
  rw [s.exhausts.answer_eq] at hk
  rw [t.exhausts.answer_eq]
  obtain ⟨later, hlater⟩ := h
  rw [← hlater, List.getElem?_append_left (List.getElem?_eq_some_iff.1 hk).1]
  exact hk

variable {p : Parser} {a b : Bytes}

/-- A strict reading splits valid output behind whole lines. -/
theorem lines_append_of_strict (hp : p.decoding = .strict) (ha : Terminated a)
    (hvalid : IsValid (a ++ b)) : p.lines (a ++ b) = p.lines a ++ p.lines b := by
  obtain ⟨hvalidA, hvalidB⟩ := (isValid_append_iff ha b).1 hvalid
  simp only [lines, hp]
  exact Decoding.lines_strict_append ha hvalidA hvalidB

/-- What stays of a reading when more lines come are its entries. A header that was left over is read
again, with the line that comes next. -/
theorem Docstyle.Reading.exists_lines_append (r : Reading) (ls : List (List Char)) :
    ∃ s : Reading, s.lines = (r.leftover.map Header.line).toList ++ ls ∧
      (append r.entries s).lines = r.lines ++ ls := by
  obtain ⟨s, hs⟩ := exists_reading ((r.leftover.map Header.line).toList ++ ls)
  refine ⟨s, hs, ?_⟩
  rw [lines_append, hs, ← List.append_assoc]
  rfl

theorem Docstyle.isPrefix_records_of_terminated (ha : Terminated a) (hvalid : IsValid (a ++ b)) :
    docstyle.records a <+: docstyle.records (a ++ b) := by
  obtain ⟨r, hr⟩ := Reading.exists_reading (docstyle.lines a)
  obtain ⟨s, -, hs⟩ := r.exists_lines_append (docstyle.lines b)
  have happend : docstyle.lines (a ++ b) = (Reading.append r.entries s).lines := by
    rw [hs, hr]
    exact lines_append_of_strict rfl ha hvalid
  rw [(records_of_lines hr.symm).1, (records_of_lines happend).1, Reading.records_append]
  exact List.prefix_append _ _

end Parser

namespace DiffParser

variable {q : DiffParser} {a b : Bytes}

/-- The scanner goes on from where the first part has left it. -/
theorem records_append (hq : q.trailing = .discard) (ha : Terminated a)
    (hvalid : IsValid (a ++ b)) :
    (Parser.diff q).records (a ++ b) = (Parser.diff q).records a ++
      ((q.scanner.scan ((Parser.diff q).lines a)).2.scan ((Parser.diff q).lines b)).1 := by
  simp only [records_eq_scanAll, hq, Diff.Scanner.scanAll_discard]
  rw [Parser.lines_append_of_strict rfl ha hvalid, Diff.Scanner.scan_append]

end DiffParser

namespace Parser

/-- The two parsers with a state that report nothing but what is complete. -/
inductive IsIncremental : Parser → Prop
  | docstyle : IsIncremental docstyle
  | diff {q : DiffParser} (h : q.trailing = .discard) : IsIncremental (diff q)

/-- Output that comes later changes no record, takes none away and puts none before it: the records
of some whole lines are the first records of these lines with more output behind them, and a poll
that has given a record gives the same record then. -/
theorem isPrefix_records_append {p : Parser} (hp : p.IsIncremental) {a b : Bytes}
    (ha : Terminated a) (hvalid : IsValid (a ++ b)) :
    p.records a <+: p.records (a ++ b) ∧
      ∀ k d, answer Stream.next (p.stream a) k = some d →
        answer Stream.next (p.stream (a ++ b)) k = some d := by
  have hfirst : p.records a <+: p.records (a ++ b) := by
    cases hp with
    | docstyle => exact Docstyle.isPrefix_records_of_terminated ha hvalid
    | diff hq =>
      rw [DiffParser.records_append hq ha hvalid]
      exact List.prefix_append _ _
  exact ⟨hfirst, fun k d => Stream.answer_of_isPrefix hfirst⟩

/-- A diff up to the middle of its second hunk. -/
def begun : List Char := "--- a.py\t1\n@@ -4 +4 @@\n-import b\n@@ -9 +9 @@\n-x=1\n".toList

theorem isPrefix_records_append_begun :
    let p : Parser := .diff { name := "", source := "black", title := "", trailing := .discard }
    let later := encode "+x = 1\n--- b.py\t1\n".toList
    p.IsIncremental ∧ Terminated (encode begun) ∧ IsValid (encode begun ++ later) ∧
      p.records (encode begun) = [.error "a.py" 4 1 "black" "-import b\n"] ∧
      p.records (encode begun) <+: p.records (encode begun ++ later) := by
  intro p later
  have hincremental : p.IsIncremental := .diff rfl
  have hterminated : Terminated (encode begun) := .inr (by decide +kernel)
  have hvalid : IsValid (encode begun ++ later) :=
    (isValid_append_iff hterminated later).2 ⟨isValid_encode _, isValid_encode _⟩
  refine ⟨hincremental, hterminated, hvalid, ?_,
    (isPrefix_records_append hincremental hterminated hvalid).1⟩
  rw [DiffParser.records_encode]
  decide +kernel

end Parser

end LintReport
