import LintReport.Diagnostic
import LintReport.Text.Field
import LintReport.Text.Numeral
import LintReport.Text.Utf8

/-!
The formats in which a line is a whole record, its parts separated by colons, and the stream of
records that such output is.
-/
namespace LintReport.Parser

inductive OneLineFormat where
  | flake8
  | mypy
  | pylint
  /-- What black writes about a file that it cannot format. -/
  | blackErrors
  deriving DecidableEq, Repr

namespace OneLineFormat

/-- `file:line:column: message`, always an error. -/
def positioned? (source : String) (line : List Char) : Option Diagnostic := do
  let (file, s) ← Text.cut? ':' (Text.trim line)
  let (row, s) ← Text.cut? ':' s
  let (column, message) ← Text.cut? ':' s
  return .error (String.ofList file) (← Text.position? row) (← Text.position? column) source
    (String.ofList (Text.trim message))

/-- `file:line: level: message`, at the first column. -/
def levelled? (source : String) (line : List Char) : Option Diagnostic := do
  let (file, s) ← Text.cut? ':' (Text.trim line)
  let (row, s) ← Text.cut? ':' s
  let (level, message) ← Text.cut? ':' s
  return .untitled (.ofLabel level) (String.ofList file) (← Text.position? row) 1 source
    (String.ofList (Text.trim message))

/-- `level: cannot format file: summary: line:column: message`. The file is the last word before the
second colon. -/
def unformatted? (source : String) (line : List Char) : Option Diagnostic := do
  let (level, s) ← Text.cut? ':' (Text.trim line)
  let (failure, s) ← Text.cut? ':' s
  let (summary, s) ← Text.cut? ':' s
  let (row, s) ← Text.cut? ':' s
  let (column, message) ← Text.cut? ':' s
  let d := Diagnostic.untitled (.ofLabel level) (String.ofList (Text.afterLast ' ' failure))
    (← Text.position? row) (← Text.position? column) source (String.ofList (Text.trim message))
  return d.withTitle (String.ofList (Text.trim summary))

def tool : OneLineFormat → String
  | flake8 => "flake8"
  | mypy => "mypy"
  | pylint => "pylint"
  | blackErrors => "black"

def decoding : OneLineFormat → Decoding
  | flake8 | blackErrors => .strict
  | mypy | pylint => .lossy

def parseLine? : OneLineFormat → List Char → Option Diagnostic
  | flake8 => positioned? flake8.tool
  | mypy => levelled? mypy.tool
  | pylint => positioned? pylint.tool
  | blackErrors => unformatted? blackErrors.tool

/-- The record that a line is, if it is one. A line without a colon is not looked at further. -/
def record? (format : OneLineFormat) (line : List Char) : Option Diagnostic :=
  if ':' ∈ line then format.parseLine? line else none

end OneLineFormat

/-- The lines still to be read, and the count of those that were no record. -/
structure OneLineStream where
  format : OneLineFormat
  rest : List (List Char)
  skipped : Nat
  deriving DecidableEq, Repr

namespace OneLineStream

/-- The next record and the stream behind it. -/
def nextFrom (format : OneLineFormat) :
    List (List Char) → Nat → Option Diagnostic × OneLineStream
  | [], skipped => (none, { format, rest := [], skipped })
  | line :: rest, skipped =>
    match format.record? line with
    | some d => (some d, { format, rest, skipped })
    | none => nextFrom format rest (skipped + 1)

def next (s : OneLineStream) : Option Diagnostic × OneLineStream :=
  nextFrom s.format s.rest s.skipped

/-- A record takes at least its own line. -/
theorem length_rest_lt_of_nextFrom {format : OneLineFormat} {rest : List (List Char)} {n : Nat}
    {d : Diagnostic} {s : OneLineStream} (h : nextFrom format rest n = (some d, s)) :
    s.rest.length < rest.length := by
  induction rest generalizing n with
  | nil => simp [nextFrom] at h
  | cons line rest ih =>
    unfold nextFrom at h
    split at h
    · simp only [Prod.mk.injEq] at h
      simp [← h.2]
    · have := ih h
      simp only [List.length_cons]; omega

end OneLineStream

end LintReport.Parser
