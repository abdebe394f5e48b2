import LintReport.Diagnostic
import LintReport.Diff.Line
import LintReport.Text.Line

/-!
A scanner that turns the lines of a unified diff into one diagnostic per hunk, placed where the
hunk begins in the old file, with the body of the hunk as its message. Lines that belong to no
hunk have no place to be reported at and are counted instead.
-/
namespace LintReport.Diff

/-- What becomes of the hunk that is still open when a diff ends. -/
inductive Trailing where
  | discard
  | flush
  deriving DecidableEq, Repr

inductive State where
  | awaitingFile
  /-- In a file, with no hunk open. -/
  | awaitingHunk (file : List Char)
  /-- In the hunk that starts at `start`, after the lines of `body`. -/
  | accumulating (file : List Char) (start : UInt32) (body : List (List Char))
  deriving DecidableEq, Repr

structure Scanner where
  /-- The tool that printed the diff. -/
  source : String
  title : String
  state : State
  skipped : Nat
  deriving DecidableEq, Repr

namespace Scanner

def new (source title : String) : Scanner := { source, title, state := .awaitingFile, skipped := 0 }

/-- The diagnostic of a hunk; a hunk without lines has none. -/
def record? (s : Scanner) (file : List Char) (start : UInt32) (body : List (List Char)) :
    Option Diagnostic :=
  if body = [] then none
  else
    let message := String.ofList (Text.unlines body)
    some ((Diagnostic.error (String.ofList file) start 1 s.source message).withTitle s.title)

def skip (s : Scanner) : Scanner := { s with skipped := s.skipped + 1 }

/-- Ends the open hunk, if there is one, and stays in its file. -/
def flush (s : Scanner) : Option Diagnostic × Scanner :=
  match s.state with
  | .accumulating file start body =>
    (s.record? file start body, { s with state := .awaitingHunk file })
  | _ => (none, s)

/-- Opens a hunk in the current file; a header that cannot be read, or that no file precedes, is
skipped. -/
def openHunk (s : Scanner) (start : Option UInt32) : Scanner :=
  match s.state, start with
  | .awaitingHunk file, some n => { s with state := .accumulating file n [] }
  | _, _ => s.skip

/-- Takes a line into the open hunk, or skips it. -/
def take (s : Scanner) (text : List Char) : Scanner :=
  match s.state with
  | .accumulating file start body => { s with state := .accumulating file start (body ++ [text]) }
  | _ => s.skip

/-- Reads one line, and returns the diagnostic of the hunk that the line ends. -/
def feed (s : Scanner) (line : List Char) : Option Diagnostic × Scanner :=
  match Line.ofText line with
  | .newFile => (none, s)
  | .oldFile file =>
    let (ended, s) := s.flush
    (ended, { s with state := .awaitingHunk file })
  | .hunk start =>
    let (ended, s) := s.flush
    (ended, s.openHunk start)
  | .other text => (none, s.take text)

/-- Ends the diff. The count of skipped lines goes on. -/
def finish (s : Scanner) (trailing : Trailing) : Option Diagnostic × Scanner :=
  let ended := match trailing with
    | .flush => s.flush.1
    | .discard => none
  (ended, { s with state := .awaitingFile })

end Scanner

end LintReport.Diff
