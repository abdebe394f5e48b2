import LintReport.Proofs.Cursor
import LintReport.Proofs.Polling
import LintReport.Proofs.Utf8

/-! A scanner over many lines. The records of a diff are those that its lines complete, one after
the other, and the one that the end of the diff completes. -/

namespace LintReport

namespace Diff.Scanner

/-- Feeds some lines: the records on the way, and the scanner behind them. -/
def scan (s : Scanner) : List (List Char) → List Diagnostic × Scanner
  | [] => ([], s)
  | l :: ls =>
    let (ended, s) := s.feed l
    let (later, s) := s.scan ls
    (ended.toList ++ later, s)

/-- Feeds all lines of a diff and ends it. -/
def scanAll (s : Scanner) (trailing : Trailing) (ls : List (List Char)) :
    List Diagnostic × Scanner :=
  let (ended, s) := s.scan ls
  let (last, s) := s.finish trailing
  (ended ++ last.toList, s)

@[simp] theorem scan_nil (s : Scanner) : s.scan [] = ([], s) := rfl

theorem scan_cons (s : Scanner) (l : List Char) (ls : List (List Char)) :
    s.scan (l :: ls) =
      ((s.feed l).1.toList ++ ((s.feed l).2.scan ls).1, ((s.feed l).2.scan ls).2) := rfl

theorem scan_append (s : Scanner) (ls ms : List (List Char)) :
    s.scan (ls ++ ms) = ((s.scan ls).1 ++ ((s.scan ls).2.scan ms).1, ((s.scan ls).2.scan ms).2) := by
  induction ls generalizing s with
  | nil => rfl
  | cons l ls ih => simp [scan_cons, ih]

theorem scanAll_nil (s : Scanner) (trailing : Trailing) :
    s.scanAll trailing [] = ((s.finish trailing).1.toList, (s.finish trailing).2) := rfl

theorem scanAll_cons (s : Scanner) (trailing : Trailing) (l : List Char) (ls : List (List Char)) :
    s.scanAll trailing (l :: ls) =
      ((s.feed l).1.toList ++ ((s.feed l).2.scanAll trailing ls).1,
        ((s.feed l).2.scanAll trailing ls).2) := by
  simp [scanAll, scan_cons]

/-- Polling a diff gives what scanning all of it gives. -/
theorem exhausts_hunks (s : Scanner) (trailing : Trailing) (ls : List (List Char)) :
    Polling.Exhausts Parser.Stream.next
      (.hunks { rest := ls, scanner := s, trailing, finished := false })
      (s.scanAll trailing ls).1
      (.hunks { rest := [], scanner := (s.scanAll trailing ls).2, trailing, finished := true }) := by
  induction ls generalizing s with
  | nil =>
    rw [scanAll_nil]
    have hnext : Parser.Stream.next (.hunks { rest := [], scanner := s, trailing, finished := false }) =
        ((s.finish trailing).1,
          .hunks { rest := [], scanner := (s.finish trailing).2, trailing, finished := true }) := rfl
    cases h : (s.finish trailing).1 with
    | none =>
      rw [h] at hnext
      exact .done hnext rfl
    | some d =>
      rw [h] at hnext
      exact .more hnext (.done rfl rfl)
  | cons l ls ih =>
    rw [scanAll_cons]
    rcases h : s.feed l with ⟨ended, s'⟩
    cases ended with
    | none =>
      refine (ih s').congr ?_
      simp [Parser.Stream.next, Parser.HunkStream.next, Parser.HunkStream.nextFrom, h]
    | some d =>
      refine .more ?_ (ih s')
      simp [Parser.Stream.next, Parser.HunkStream.next, Parser.HunkStream.nextFrom, h]

end Diff.Scanner

/-- A record is that of the first line that completes one, or of the end of the diff. -/
theorem Parser.HunkStream.cases_of_nextFrom {trailing : Diff.Trailing} {rest : List (List Char)}
    {scanner : Diff.Scanner} {d : Diagnostic} {t : HunkStream}
    (h : nextFrom trailing rest scanner = (some d, t)) :
    (∃ passed line, rest = passed ++ line :: t.rest ∧ (scanner.scan passed).1 = [] ∧
      (scanner.scan passed).2.feed line = (some d, t.scanner)) ∨
    (t.rest = [] ∧ (scanner.scan rest).1 = [] ∧
      (scanner.scan rest).2.finish trailing = (some d, t.scanner)) := by
  induction rest generalizing scanner with
  | nil =>
    simp only [nextFrom, Prod.mk.injEq] at h
    obtain ⟨hlast, rfl⟩ := h
    exact .inr ⟨rfl, rfl, Prod.ext hlast rfl⟩
  | cons line rest ih =>
    unfold nextFrom at h
    split at h
    · rename_i e s hfeed
      simp only [Prod.mk.injEq, Option.some.injEq] at h
      obtain ⟨rfl, rfl⟩ := h
      exact .inl ⟨[], line, rfl, rfl, hfeed⟩
    · rename_i s hfeed
      have hscan (ls : List (List Char)) : scanner.scan (line :: ls) = s.scan ls := by
        rw [Diff.Scanner.scan_cons, hfeed]
        rfl
      rcases ih h with ⟨passed, line', hrest, hpassed, hline'⟩ | hend
      · refine .inl ⟨line :: passed, line', by rw [hrest]; rfl, ?_⟩
        rw [hscan]
        exact ⟨hpassed, hline'⟩
      · rw [hscan]
        exact .inr hend

namespace DiffParser

/-- The scanner with which a parser begins. -/
def scanner (p : DiffParser) : Diff.Scanner := .new p.source p.title

theorem records_eq_scanAll (p : DiffParser) (output : Bytes) :
    (Parser.diff p).records output =
      (p.scanner.scanAll p.trailing ((Parser.diff p).lines output)).1 :=
  (Parser.records_of_exhausts (.diff p) output (p.scanner.exhausts_hunks p.trailing _)).1

theorem skipped_exhausted (p : DiffParser) (output : Bytes) :
    ((Parser.diff p).stream output).exhausted.skipped =
      (p.scanner.scanAll p.trailing ((Parser.diff p).lines output)).2.skipped :=
  congrArg Parser.Stream.skipped
    (Parser.records_of_exhausts (.diff p) output (p.scanner.exhausts_hunks p.trailing _)).2

theorem lines_encode (p : DiffParser) (text : List Char) :
    (Parser.diff p).lines (Text.Utf8.encode text) = Text.lines text :=
  congrArg Text.lines (Decoding.read_strict_encode text)

theorem records_encode (p : DiffParser) (text : List Char) :
    (Parser.diff p).records (Text.Utf8.encode text) =
      (p.scanner.scanAll p.trailing (Text.lines text)).1 := by
  rw [records_eq_scanAll, lines_encode]

theorem skipped_exhausted_encode (p : DiffParser) (text : List Char) :
    ((Parser.diff p).stream (Text.Utf8.encode text)).exhausted.skipped =
      (p.scanner.scanAll p.trailing (Text.lines text)).2.skipped := by
  rw [skipped_exhausted, lines_encode]

end DiffParser

end LintReport
