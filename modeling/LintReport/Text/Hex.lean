/-!
Hexadecimal digits, read in either case and written in lower case.
-/
namespace LintReport.Text

def hexDigit? (c : Char) : Option Nat :=
  if c.isDigit then some (c.toNat - '0'.toNat)
  else if 'a' ≤ c ∧ c ≤ 'f' then some (c.toNat - 'a'.toNat + 10)
  else if 'A' ≤ c ∧ c ≤ 'F' then some (c.toNat - 'A'.toNat + 10)
  else none

/-- The value of a run of digits. -/
def hexValue? (s : List Char) : Option Nat :=
  s.foldlM (fun value c => (hexDigit? c).map (value * 16 + ·)) 0

/-- The digit of a value below sixteen. -/
def hexDigit (n : Nat) : Char := Nat.digitChar n

end LintReport.Text
