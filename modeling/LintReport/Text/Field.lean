import LintReport.Text.Blank

/-!
Separated fields of a line: cutting at one separator, splitting at all of them, and the words
between white space.
-/
namespace LintReport.Text

/-- The text before the first `c` and the text after it; `none` when `c` does not occur. -/
def cut? (c : Char) : List Char → Option (List Char × List Char)
  | [] => none
  | d :: s => if d = c then some ([], s) else (cut? c s).map fun (field, rest) => (d :: field, rest)

/-- The text up to the first `c`, or all of it. -/
def before (c : Char) (s : List Char) : List Char := s.takeWhile (· ≠ c)

/-- The text from behind the last `c`, or all of it. -/
def afterLast (c : Char) (s : List Char) : List Char := (s.reverse.takeWhile (· ≠ c)).reverse

/-- The pieces between the characters that satisfy `p`; there is always at least one piece. -/
def splitWhere (p : Char → Bool) : List Char → List (List Char)
  | [] => [[]]
  | c :: s =>
    if p c then [] :: splitWhere p s
    else match splitWhere p s with
      | [] => [[c]]
      | w :: ws => (c :: w) :: ws

/-- The first word of a text that does not begin with white space, else the empty word. -/
def leadingWord (s : List Char) : List Char := s.takeWhile (!isBlank ·)

/-- The non-empty pieces between white space. -/
def words (s : List Char) : List (List Char) := (splitWhere isBlank s).filter (!·.isEmpty)

/-- Cutting loses nothing but the separator, and the first part is free of it. -/
theorem cut?_eq_some_iff {c : Char} {s a r : List Char} :
    cut? c s = some (a, r) ↔ s = a ++ c :: r ∧ c ∉ a := by
  induction s generalizing a with
  | nil => simp [cut?]
  | cons d s ih =>
    by_cases h : d = c
    · subst h
      cases a with
      | nil => simp [cut?, eq_comm]
      | cons e a => simp [cut?]; grind
    · cases a with
      | nil => simp [cut?, h]
      | cons e a => simp [cut?, h, Prod.exists, ih]; grind

theorem cut?_eq_none_iff {c : Char} {s : List Char} : cut? c s = none ↔ c ∉ s := by
  induction s with
  | nil => simp [cut?]
  | cons d s ih =>
    by_cases h : d = c
    · simp [cut?, h]
    · simp [cut?, h, ih, Ne.symm h]

end LintReport.Text
