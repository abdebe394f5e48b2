import LintReport.Parser.Docstyle
import LintReport.Parser.Hunks
import LintReport.Parser.OneLine
import LintReport.Text.Cursor

/-!
The parsers of tool output: what each is called, which tool and which of its outputs it reads, and
the stream of records that it makes of that output.
-/
namespace LintReport

/-- The two outputs of a program. -/
inductive Channel where
  | stdout
  | stderr
  deriving DecidableEq, Repr

/-- A parser for the diffs of one formatter, all of whose records have the same title. -/
structure DiffParser where
  name : String
  source : String
  title : String
  trailing : Diff.Trailing
  deriving DecidableEq, Repr

inductive Parser where
  | oneLine (format : Parser.OneLineFormat)
  | docstyle
  | diff (parser : DiffParser)
  deriving DecidableEq, Repr

namespace Parser

def tool : Parser → String
  | oneLine format => format.tool
  | docstyle => DocstyleStream.source
  | diff parser => parser.source

def name : Parser → String
  | oneLine .blackErrors => "black-errors"
  | oneLine format => format.tool
  | docstyle => "pydocstyle"
  | diff parser => parser.name

def channel : Parser → Channel
  | oneLine .blackErrors => .stderr
  | _ => .stdout

def decoding : Parser → Decoding
  | oneLine format => format.decoding
  | _ => .strict

/-- The records of some output, read as far as they are asked for. -/
inductive Stream where
  | oneLine (s : OneLineStream)
  | docstyle (s : DocstyleStream)
  | hunks (s : HunkStream)
  deriving DecidableEq, Repr

/-- The lines of some output, in the parser's reading of bytes as text. -/
def lines (p : Parser) (output : Bytes) : List (List Char) := Text.lines (p.decoding.read output)

/-- The stream of records of some lines, none of them read yet. -/
def streamOf (p : Parser) (rest : List (List Char)) : Stream :=
  match p with
  | oneLine format => .oneLine { format, rest, skipped := 0 }
  | docstyle => .docstyle { rest, skipped := 0 }
  | diff parser =>
    .hunks {
      rest
      scanner := .new parser.source parser.title
      trailing := parser.trailing
      finished := false }

/-- The cursor in front of the first line of some output. -/
def cursor (p : Parser) (output : Bytes) : Text.Cursor := .start (p.decoding.read output)

/-- The stream of records of some output, none of them read yet. -/
def stream (p : Parser) (output : Bytes) : Stream := p.streamOf (p.cursor output).toList

namespace Stream

/-- The next record, if there is one more, and the stream behind it. -/
def next : Stream → Option Diagnostic × Stream
  | oneLine s => s.next.map id oneLine
  | docstyle s => s.next.map id docstyle
  | hunks s => s.next.map id hunks

/-- How many of the lines read so far belong to no record. -/
def skipped : Stream → Nat
  | oneLine s => s.skipped
  | docstyle s => s.skipped
  | hunks s => s.scanner.skipped

/-- A bound on the records to come. -/
def remaining : Stream → Nat
  | oneLine s => s.rest.length
  | docstyle s => s.rest.length
  | hunks s => s.remaining

theorem remaining_lt_of_next {s s' : Stream} {d : Diagnostic} (h : s.next = (some d, s')) :
    s'.remaining < s.remaining := by
  cases s with
  | oneLine s =>
    obtain ⟨h₁, h₂⟩ := Prod.mk.inj h
    subst h₂
    exact OneLineStream.length_rest_lt_of_nextFrom (Prod.ext h₁ rfl : s.next = (some d, s.next.2))
  | docstyle s =>
    obtain ⟨h₁, h₂⟩ := Prod.mk.inj h
    subst h₂
    exact DocstyleStream.length_rest_lt_of_nextFrom (Prod.ext h₁ rfl : s.next = (some d, s.next.2))
  | hunks s =>
    obtain ⟨h₁, h₂⟩ := Prod.mk.inj h
    subst h₂
    exact HunkStream.remaining_lt_of_next (Prod.ext h₁ rfl : s.next = (some d, s.next.2))

/-- All records to come. -/
def toList (s : Stream) : List Diagnostic :=
  match _next : s.next with
  | (none, _) => []
  | (some d, s') => d :: toList s'
termination_by s.remaining
decreasing_by exact remaining_lt_of_next _next

end Stream

/-- All records of some output. -/
def records (p : Parser) (output : Bytes) : List Diagnostic := (p.stream output).toList

end Parser

end LintReport
