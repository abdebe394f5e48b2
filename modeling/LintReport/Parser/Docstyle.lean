import LintReport.Diagnostic
import LintReport.Text.Field
import LintReport.Text.Numeral

/-!
The two-line records of pydocstyle: a header that begins with `file:line`, and a line with the
message.
-/
namespace LintReport.Parser

/-- The file and the line number, still as text, of a header: its first word, which has exactly one
colon. A header that begins with white space has an empty first word. -/
def splitHeader? (header : List Char) : Option (List Char × List Char) :=
  match Text.cut? ':' (Text.leadingWord header) with
  | some (file, number) => if ':' ∈ number then none else some (file, number)
  | none => none

/-- The lines still to be read, and the count of those that no record used. -/
structure DocstyleStream where
  rest : List (List Char)
  skipped : Nat
  deriving DecidableEq, Repr

namespace DocstyleStream

def source : String := "pydocstyle"

/-- The next record and the stream behind it. A line that is no header is skipped. Behind a header
the next line is taken as its message in any case, and if the line number cannot be read the two
count as one skipped line; so does a header at the end of the output. -/
def nextFrom : List (List Char) → Nat → Option Diagnostic × DocstyleStream
  | [], skipped => (none, { rest := [], skipped })
  | header :: rest, skipped =>
    match splitHeader? header with
    | none => nextFrom rest (skipped + 1)
    | some (file, number) =>
      match rest with
      | [] => (none, { rest := [], skipped := skipped + 1 })
      | message :: rest =>
        match Text.position? number with
        | some line =>
          (some (.error (String.ofList file) line 1 source (String.ofList (Text.trim message))),
            { rest, skipped })
        | none => nextFrom rest (skipped + 1)

def next (s : DocstyleStream) : Option Diagnostic × DocstyleStream := nextFrom s.rest s.skipped

/-- A record takes at least its own lines. -/
theorem length_rest_lt_of_nextFrom {rest : List (List Char)} {n : Nat} {d : Diagnostic}
    {s : DocstyleStream} (h : nextFrom rest n = (some d, s)) : s.rest.length < rest.length := by
  fun_induction nextFrom rest n with
  | case1 => simp at h
  | case2 header rest n _ ih => have := ih h; simp only [List.length_cons]; omega
  | case3 => simp at h
  | case4 header n file number _ message rest line _ =>
    simp only [Prod.mk.injEq] at h
    simp only [← h.2, List.length_cons]; omega
  | case5 header n file number _ message rest _ ih =>
    have := ih h; simp only [List.length_cons]; omega

end DocstyleStream

end LintReport.Parser
