import LintReport.Text.Field
import LintReport.Text.Line

/-!
A cursor that gives the lines of a text one after the other. It keeps its place as a number of
bytes, as the text has them in UTF-8, and moves forward only.
-/
namespace LintReport.Text

/-- How many bytes a text takes in UTF-8. -/
def byteLength : List Char → Nat
  | [] => 0
  | c :: s => c.utf8Size + byteLength s

/-- The text from a byte on; `none` if that byte is within a character, or past the end. -/
def fromByte? : List Char → Nat → Option (List Char)
  | s, 0 => some s
  | [], _ + 1 => none
  | c :: s, n + 1 => if c.utf8Size ≤ n + 1 then fromByte? s (n + 1 - c.utf8Size) else none

structure Cursor where
  text : List Char
  /-- The byte at which the next line begins. -/
  pos : Nat
  deriving DecidableEq, Repr

namespace Cursor

/-- The cursor in front of the first line. -/
def start (text : List Char) : Cursor := { text, pos := 0 }

/-- What is still to be read, unless the cursor is within a character. -/
def rest? (c : Cursor) : Option (List Char) := fromByte? c.text c.pos

/-- The next line and the cursor behind it. At the end of the text there is no line, nor would there
be one within a character. -/
def next (c : Cursor) : Option (List Char) × Cursor :=
  if byteLength c.text ≤ c.pos then (none, c)
  else match c.rest? with
    | none => (none, c)
    | some rest =>
      match cut? '\n' rest with
      | some (line, _) =>
        (some (withoutReturn line), { c with pos := c.pos + byteLength line + 1 })
      | none => (some rest, { c with pos := byteLength c.text })

/-- Every line moves the cursor forward, in the same text and from a place that is not its end. -/
theorem moves_of_next {c c' : Cursor} {l : List Char} (h : c.next = (some l, c')) :
    c'.text = c.text ∧ c.pos < c'.pos ∧ c.pos < byteLength c.text := by
  unfold next at h
  split at h
  · cases h
  · rename_i hend
    split at h
    · cases h
    · split at h
      · cases h
        exact ⟨rfl, by dsimp only; omega, by omega⟩
      · cases h
        exact ⟨rfl, by dsimp only; omega, by omega⟩

/-- All lines to come. -/
def toList (c : Cursor) : List (List Char) :=
  match _found : c.next with
  | (none, _) => []
  | (some l, c') => l :: toList c'
termination_by byteLength c.text - c.pos
decreasing_by
  obtain ⟨htext, hpos, hend⟩ := moves_of_next _found
  rw [htext]
  omega

end Cursor

end LintReport.Text
