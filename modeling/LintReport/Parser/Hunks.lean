import LintReport.Diff.Scanner

/-!
The diff of a formatter as a stream of records, one for each hunk.
-/
namespace LintReport.Parser

/-- The lines still to be read and the scanner that reads them; `finished` once the end of the diff
has been reported to the scanner. -/
structure HunkStream where
  rest : List (List Char)
  scanner : Diff.Scanner
  trailing : Diff.Trailing
  finished : Bool
  deriving DecidableEq, Repr

namespace HunkStream

/-- The next record and the stream behind it. -/
def nextFrom (trailing : Diff.Trailing) :
    List (List Char) → Diff.Scanner → Option Diagnostic × HunkStream
  | [], scanner =>
    let (last, scanner) := scanner.finish trailing
    (last, { rest := [], scanner, trailing, finished := true })
  | line :: rest, scanner =>
    match scanner.feed line with
    | (some d, scanner) => (some d, { rest, scanner, trailing, finished := false })
    | (none, scanner) => nextFrom trailing rest scanner

def next (s : HunkStream) : Option Diagnostic × HunkStream :=
  if s.finished then (none, s) else nextFrom s.trailing s.rest s.scanner

/-- How many lines there are to read, the end of the diff counted as one. -/
def remaining (s : HunkStream) : Nat := if s.finished then 0 else s.rest.length + 1

theorem remaining_lt_of_nextFrom {trailing : Diff.Trailing} {rest : List (List Char)}
    {scanner : Diff.Scanner} {d : Diagnostic} {s : HunkStream}
    (h : nextFrom trailing rest scanner = (some d, s)) : s.remaining < rest.length + 1 := by
  induction rest generalizing scanner with
  | nil =>
    simp only [nextFrom, Prod.mk.injEq] at h
    simp [← h.2, remaining]
  | cons line rest ih =>
    unfold nextFrom at h
    split at h
    · simp only [Prod.mk.injEq] at h
      simp [← h.2, remaining]
    · have := ih h
      simp only [List.length_cons]; omega

/-- A record takes at least one line, or the end of the diff. -/
theorem remaining_lt_of_next {s s' : HunkStream} {d : Diagnostic} (h : s.next = (some d, s')) :
    s'.remaining < s.remaining := by
  unfold next at h
  split at h
  · simp at h
  · rename_i hf
    have := remaining_lt_of_nextFrom h
    simpa [remaining, hf] using this

end HunkStream

end LintReport.Parser
