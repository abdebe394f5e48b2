import LintReport.Proofs.Diff.Segmentation
import LintReport.Proofs.WholeLines

/-! The two policies for the hunk that the end of a diff leaves open. Flushing it gives one more
record at most, and the same records as a file header behind the last line, which ends the hunk and
begins a file without hunks. -/

namespace LintReport

namespace Diff.Scanner

variable (s : Scanner) (ls : List (List Char))

theorem scanAll_discard : (s.scanAll .discard ls).1 = (s.scan ls).1 := List.append_nil _

theorem scanAll_flush :
    (s.scanAll .flush ls).1 = (s.scanAll .discard ls).1 ++ (s.scan ls).2.flush.1.toList := by
  rw [scanAll_discard]
  rfl

theorem skipped_scanAll (trailing : Trailing) :
    (s.scanAll trailing ls).2.skipped = (s.scan ls).2.skipped := rfl

/-- A file header behind the last line ends the open hunk as flushing does. -/
theorem scanAll_header {l : List Char} (h : kind l = .oldFile) :
    (s.scanAll .discard (ls ++ [l])).1 = (s.scanAll .flush ls).1 ∧
      (s.scanAll .discard (ls ++ [l])).2.skipped = (s.scanAll .flush ls).2.skipped := by
  have hend := (s.scan ls).2.feed_oldFile h
  have hscan : s.scan (ls ++ [l]) =
      ((s.scan ls).1 ++ ((s.scan ls).2.feed l).1.toList, ((s.scan ls).2.feed l).2) := by
    rw [scan_append, scan_cons, scan_nil, List.append_nil]
  constructor
  · rw [scanAll_flush, scanAll_discard, scanAll_discard, hscan, hend]
  · rw [skipped_scanAll, skipped_scanAll, hscan, hend]
    exact skipped_flush _

end Diff.Scanner

namespace DiffParser

open Diff Text.Utf8

/-- A file header without a name, as the last line of a text, with a newline or without one. -/
def closings : List (List Char) := ["--- ".toList, "--- \n".toList]

theorem lines_closing {closing : List Char} (h : closing ∈ closings) :
    Text.lines closing = ["--- ".toList] := by
  simp only [closings, List.mem_cons, List.not_mem_nil, or_false] at h
  rcases h with rfl | rfl <;> decide +kernel

variable (p : DiffParser) {output : Bytes}

theorem lines_of_not_isValid (h : ¬IsValid output) : (Parser.diff p).lines output = [] := by
  show Text.lines (Decoding.strict.read output) = []
  rw [Decoding.read_strict_of_not_isValid h, Text.lines_nil]

theorem lines_append_closing (ha : Terminated output) (hvalid : IsValid output)
    {closing : List Char} (h : closing ∈ closings) :
    (Parser.diff p).lines (output ++ encode closing) =
      (Parser.diff p).lines output ++ ["--- ".toList] := by
  have hclosing := p.lines_encode closing
  rw [lines_closing h] at hclosing
  rw [← hclosing]
  exact Decoding.lines_strict_append ha hvalid (isValid_encode closing)

/-- The parser with another policy. -/
def withTrailing (trailing : Trailing) : DiffParser := { p with trailing }

/-- Whole lines give the same records whichever policy the parser has, up to one more record at the
end if it flushes; that record too is what discarding gives once a file header is appended. No line
is skipped for the sake of the policy or of that header. -/
theorem records_flush_discard (output : Bytes) (h : Terminated output) :
    (∃ last : Option Diagnostic, (Parser.diff (p.withTrailing .flush)).records output =
      (Parser.diff (p.withTrailing .discard)).records output ++ last.toList) ∧
    ((Parser.diff (p.withTrailing .flush)).stream output).exhausted.skipped =
      ((Parser.diff (p.withTrailing .discard)).stream output).exhausted.skipped ∧
    ∀ closing ∈ closings,
      (Parser.diff (p.withTrailing .discard)).records (output ++ encode closing) =
        (Parser.diff (p.withTrailing .flush)).records output ∧
      ((Parser.diff (p.withTrailing .discard)).stream
          (output ++ encode closing)).exhausted.skipped =
        ((Parser.diff (p.withTrailing .flush)).stream output).exhausted.skipped := by
  simp only [records_eq_scanAll, skipped_exhausted]
  refine ⟨⟨_, Scanner.scanAll_flush _ _⟩, rfl, fun closing hclosing => ?_⟩
  by_cases hvalid : IsValid output
  · rw [(p.withTrailing .discard).lines_append_closing h hvalid hclosing]
    exact Scanner.scanAll_header _ _ rfl
  · have happend : ¬IsValid (output ++ encode closing) := fun hboth =>
      hvalid ((isValid_append_iff h _).1 hboth).1
    rw [lines_of_not_isValid _ happend, lines_of_not_isValid _ hvalid]
    exact ⟨rfl, rfl⟩

/-- A diff that ends in its only hunk. -/
def openEnded : List Char := "--- a.py\t1\n@@ -4 +4 @@\n-import b\n+import a\n".toList

/-- Whether its hunk is flushed or a file header ends it, the record is the same. -/
theorem records_flush_discard_openEnded :
    let p : DiffParser := { name := "", source := "isort", title := "", trailing := .flush }
    Terminated (encode openEnded) ∧
      (Parser.diff p).records (encode openEnded) =
        [Diagnostic.error "a.py" 4 1 "isort" "-import b\n+import a\n"] ∧
      (Parser.diff (p.withTrailing .discard)).records
          (encode openEnded ++ encode "--- \n".toList) =
        [Diagnostic.error "a.py" 4 1 "isort" "-import b\n+import a\n"] := by
  intro p
  have hterminated : Terminated (encode openEnded) := .inr (by decide +kernel)
  have hflush : (Parser.diff p).records (encode openEnded) =
      [Diagnostic.error "a.py" 4 1 "isort" "-import b\n+import a\n"] := by
    rw [records_encode]
    decide +kernel
  have hclosed := (p.records_flush_discard (encode openEnded) hterminated).2.2 "--- \n".toList
    (List.mem_cons_of_mem _ List.mem_cons_self)
  exact ⟨hterminated, hflush, hclosed.1.trans hflush⟩

end DiffParser

end LintReport
