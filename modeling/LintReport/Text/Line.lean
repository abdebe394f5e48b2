/-!
Lines of a text. A line ends in a newline, or in a carriage return and a newline; the text behind
the last newline is a line of its own unless it is empty, and there a carriage return is kept.
-/
namespace LintReport.Text

/-- The line without the carriage return of a two-character line end. -/
def withoutReturn (l : List Char) : List Char :=
  if l.getLast? = some '\r' then l.dropLast else l

/-- The first line and the text behind it; `none` at the end of the text. -/
def nextLine? (s : List Char) : Option (List Char × List Char) :=
  match s with
  | [] => none
  | c :: s' =>
    match (c :: s').dropWhile (· ≠ '\n') with
    | [] => some (c :: s', [])
    | _ :: rest => some (withoutReturn ((c :: s').takeWhile (· ≠ '\n')), rest)

/-- Reading a line consumes at least one character. -/
theorem length_lt_of_nextLine? {s l rest : List Char} (h : nextLine? s = some (l, rest)) :
    rest.length < s.length := by
  cases s with
  | nil => simp [nextLine?] at h
  | cons c s =>
    have hs : ((c :: s).dropWhile (· ≠ '\n')).length ≤ (c :: s).length :=
      (List.dropWhile_sublist _).length_le
    unfold nextLine? at h
    dsimp only at h
    split at h
    · simp only [Option.some.injEq, Prod.mk.injEq] at h
      rw [← h.2]; simp
    · rename_i hd
      simp only [Option.some.injEq, Prod.mk.injEq] at h
      rw [hd] at hs
      rw [← h.2]; simp only [List.length_cons] at hs ⊢; omega

/-- All lines of a text, in order. -/
def lines (s : List Char) : List (List Char) :=
  match _found : nextLine? s with
  | none => []
  | some (l, rest) => l :: lines rest
termination_by s.length
decreasing_by exact length_lt_of_nextLine? _found

/-- Lines joined again, each with a newline behind it. -/
def unlines (ls : List (List Char)) : List Char := ls.flatMap (· ++ ['\n'])

end LintReport.Text
