import LintReport.Text.Blank

/-!
Decimal numerals of 32 bits, and the line and column numbers that tools print. A numeral may carry
one plus sign and any number of leading zeros; a value of 2³² or more is refused, never wrapped.
-/
namespace LintReport.Text

/-- The value of a non-empty run of ASCII digits. -/
def digits? (s : List Char) : Option Nat :=
  if s ≠ [] ∧ s.all Char.isDigit then some (Nat.ofDigitChars 10 s 0) else none

/-- A number with one more digit behind it, unless that takes more than 32 bits. -/
def appendDigit? (n : UInt32) (c : Char) : Option UInt32 :=
  let value := 10 * n.toNat + (c.toNat - '0'.toNat)
  if c.isDigit ∧ value < UInt32.size then some (UInt32.ofNat value) else none

/-- The text behind a plus sign in front, or all of it. -/
def withoutPlus : List Char → List Char
  | '+' :: s => s
  | s => s

/-- A digit run below 2³², after at most one plus sign. It is given up at the first digit that takes
the number beyond 32 bits. -/
def word32? (s : List Char) : Option UInt32 :=
  match withoutPlus s with
  | [] => none
  | ds => ds.foldlM appendDigit? 0

/-- Positions count from one, so a reported zero stands for one. -/
def oneBased (n : UInt32) : UInt32 := max n 1

/-- A reported line or column number, with white space around it allowed. -/
def position? (s : List Char) : Option UInt32 := (word32? (trim s)).map oneBased

/-- A number as it is printed: decimal, without leading zeros. -/
def decimal (n : Nat) : List Char := Nat.toDigits 10 n

end LintReport.Text
