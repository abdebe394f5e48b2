import LintReport.Text.Field
import LintReport.Text.Numeral

/-!
The lines of a unified diff, by how they begin, and the line number in a hunk header.
-/
namespace LintReport.Diff

/-- The text behind a sign in front, or all of it. -/
def withoutSign : List Char → List Char
  | '-' :: s => s
  | '+' :: s => s
  | s => s

/-- The line of the old file at which a hunk begins: the second word of the header, up to its first
comma and without its sign. -/
def hunkStart? (header : List Char) : Option UInt32 := do
  let range ← (Text.words header)[1]?
  return Text.oneBased (← Text.word32? (withoutSign (Text.before ',' range)))

inductive Line where
  /-- The name of the new file, which no record shows. -/
  | newFile
  /-- The name of the old file, up to the tab before its time stamp. -/
  | oldFile (name : List Char)
  /-- A hunk header, with the start of the hunk if it can be read. -/
  | hunk (start : Option UInt32)
  | other (text : List Char)
  deriving DecidableEq, Repr

/-- What a line is depends on its first characters only, also inside a hunk. -/
def Line.ofText : List Char → Line
  | '+' :: '+' :: '+' :: ' ' :: _ => newFile
  | '-' :: '-' :: '-' :: ' ' :: header => oldFile (Text.before '\t' header)
  | '@' :: '@' :: s => hunk (hunkStart? ('@' :: '@' :: s))
  | s => other s

end LintReport.Diff
