import LintReport.Text.Hex
import LintReport.Text.Numeral
import LintReport.Toml.Value

/-!
The values of a TOML document that are neither quoted nor bracketed: dates and times, floats,
integers.
-/
namespace LintReport.Toml

/-- The characters of which such a value consists. -/
def isScalarChar (c : Char) : Bool :=
  c.isAlphanum || c = '_' || c = '+' || c = '-' || c = '.' || c = ':'

/-- Digits, with single underscores between them. -/
def isGrouped (isDigit : Char → Bool) : List Char → Bool
  | [] => false
  | [c] => isDigit c
  | c :: '_' :: s => isDigit c && isGrouped isDigit s
  | c :: s => isDigit c && isGrouped isDigit s

def ungrouped (s : List Char) : List Char := s.filter (· ≠ '_')

/-- The sign, and what follows it. -/
def splitSign : List Char → List Char × List Char
  | '+' :: s => (['+'], s)
  | '-' :: s => (['-'], s)
  | s => ([], s)

/-- A whole number without needless zeros in front. -/
def isWhole (s : List Char) : Bool :=
  isGrouped Char.isDigit s && (s.head? ≠ some '0' || s = ['0'])

/-- Integers have 64 bits. -/
def integer64? (n : Int) : Option Value :=
  if -0x8000000000000000 ≤ n ∧ n < 0x8000000000000000 then some (.integer n) else none

def inBase? (base : Nat) (digits : List Char) : Option Value := do
  let isDigit (c : Char) := (Text.hexDigit? c).any (· < base)
  if isGrouped isDigit digits then
    let values := (ungrouped digits).map fun c => (Text.hexDigit? c).getD 0
    integer64? (values.foldl (fun n d => n * base + d) 0 : Nat)
  else none

def integer? : List Char → Option Value
  | '0' :: 'x' :: s => inBase? 16 s
  | '0' :: 'o' :: s => inBase? 8 s
  | '0' :: 'b' :: s => inBase? 2 s
  | s =>
    let (sign, s) := splitSign s
    if isWhole s then
      let n : Int := Nat.ofDigitChars 10 (ungrouped s) 0
      integer64? (if sign = ['-'] then -n else n)
    else none

/-- A float in its parts: the fraction with the point before it and the exponent with its letter,
where there are such. -/
structure FloatParts where
  negative : Bool
  whole : List Char
  fraction : List Char
  exponent : List Char

def FloatParts.ofText (s : List Char) : FloatParts :=
  let (sign, s) := splitSign s
  let mantissa := s.takeWhile fun c => c ≠ 'e' ∧ c ≠ 'E'
  { negative := sign = ['-']
    whole := mantissa.takeWhile (· ≠ '.')
    fraction := mantissa.dropWhile (· ≠ '.')
    exponent := s.dropWhile fun c => c ≠ 'e' ∧ c ≠ 'E' }

/-- A float that is not one of the special values has a fraction, an exponent or both. -/
def FloatParts.isWellFormed (f : FloatParts) : Bool :=
  isWhole f.whole && (f.fraction ≠ [] || f.exponent ≠ []) &&
    (f.fraction = [] || isGrouped Char.isDigit (f.fraction.drop 1)) &&
    (f.exponent = [] || isGrouped Char.isDigit (splitSign (f.exponent.drop 1)).2)

/-- The least value that is rounded to infinity as a double: half a step above the largest one. -/
def overflow : Nat := (1 <<< 1024) - (1 <<< 970)

/-- Whether `n` times this power of ten is at least `overflow`. No power is computed when the number
of digits settles the matter. -/
def reachesOverflow (n : Nat) (power : Int) : Bool :=
  if n = 0 then false
  else
    match power with
    | .ofNat k => 309 < k || overflow ≤ n * Nat.pow 10 k
    | .negSucc k =>
      k + 1 ≤ (Text.decimal n).length && overflow * Nat.pow 10 (k + 1) ≤ n

/-- Whether a float is too large to be positive and finite; below zero none is. -/
def FloatParts.isTooLarge (f : FloatParts) : Bool :=
  let fraction := ungrouped (f.fraction.drop 1)
  let (sign, digits) := splitSign (f.exponent.drop 1)
  let size : Int := Nat.ofDigitChars 10 (ungrouped digits) 0
  let power := (if sign = ['-'] then -size else size) - fraction.length
  !f.negative && reachesOverflow (Nat.ofDigitChars 10 (ungrouped f.whole ++ fraction) 0) power

/-- A float that is not too large, as it is written. -/
def float? (s : List Char) : Option Value :=
  let unsigned := (splitSign s).2
  let f := FloatParts.ofText s
  if unsigned = "inf".toList || unsigned = "nan".toList || (f.isWellFormed && !f.isTooLarge) then
    some (.float (String.ofList s))
  else none

/-- A number of exactly two digits, within bounds. -/
def twoDigits? (low high : Nat) : List Char → Option (List Char × List Char)
  | a :: b :: s =>
    if a.isDigit && b.isDigit then
      let n := Nat.ofDigitChars 10 [a, b] 0
      if low ≤ n ∧ n ≤ high then some ([a, b], s) else none
    else none
  | _ => none

def isLeapYear (year : Nat) : Bool := year % 4 = 0 && (year % 100 ≠ 0 || year % 400 = 0)

def daysOfMonth (year month : Nat) : Nat :=
  if month = 2 then (if isLeapYear year then 29 else 28)
  else if month = 4 || month = 6 || month = 9 || month = 11 then 30
  else 31

/-- A date, with what follows it. -/
def takeDate? (s : List Char) : Option (List Char × List Char) := do
  let year := s.take 4
  guard (year.length = 4 && year.all Char.isDigit)
  match s.drop 4 with
  | '-' :: s =>
    let (month, s) ← twoDigits? 1 12 s
    match s with
    | '-' :: s =>
      let days := daysOfMonth (Nat.ofDigitChars 10 year 0) (Nat.ofDigitChars 10 month 0)
      let (day, s) ← twoDigits? 1 days s
      return (year ++ '-' :: month ++ '-' :: day, s)
    | _ => none
  | _ => none

/-- A fraction of a second: at most nine digits count, and zeros at the end do not. -/
def secondFraction (digits : List Char) : List Char :=
  let digits := ((digits.take 9).reverse.dropWhile (· = '0')).reverse
  if digits = [] then [] else '.' :: digits

/-- A time of day, with what follows it. -/
def takeTime? (s : List Char) : Option (List Char × List Char) := do
  let (hour, s) ← twoDigits? 0 23 s
  match s with
  | ':' :: s =>
    let (minute, s) ← twoDigits? 0 59 s
    match s with
    | ':' :: s =>
      let (second, s) ← twoDigits? 0 60 s
      let time := hour ++ ':' :: minute ++ ':' :: second
      match s with
      | '.' :: s =>
        let digits := s.takeWhile Char.isDigit
        guard (digits ≠ [])
        return (time ++ secondFraction digits, s.dropWhile Char.isDigit)
      | s => return (time, s)
    | _ => none
  | _ => none

/-- The offset of a time from universal time. A zero offset is written with a plus sign. -/
def offset? : List Char → Option (List Char)
  | [] => some []
  | ['Z'] => some ['Z']
  | ['z'] => some ['Z']
  | s => do
    let (sign, s) := splitSign s
    guard (sign ≠ [])
    let (hour, s) ← twoDigits? 0 23 s
    match s with
    | ':' :: s =>
      let (minute, s) ← twoDigits? 0 59 s
      guard (s = [])
      let shown := hour ++ ':' :: minute
      return (if shown = "00:00".toList then ['+'] else sign) ++ shown
    | _ => none

/-- A time with its offset, behind a date. -/
def timeOfDate? (s : List Char) : Option (List Char) := do
  let (time, s) ← takeTime? s
  return time ++ (← offset? s)

/-- A date, a date with a time, or a time. -/
def dateTime? (s : List Char) : Option (List Char) :=
  match takeDate? s with
  | some (date, []) => some date
  | some (date, 'T' :: s) => (timeOfDate? s).map fun time => date ++ 'T' :: time
  | some (date, 't' :: s) => (timeOfDate? s).map fun time => date ++ 'T' :: time
  | some _ => none
  | none =>
    match takeTime? s with
    | some (time, []) => some time
    | _ => none

def ofScalarText? (s : List Char) : Option Value :=
  match dateTime? s with
  | some text => some (.dateTime (String.ofList text))
  | none => float? s <|> integer? s

/-- A value of this kind at the front of a text. A date and a time may have a space between them. -/
def takeScalar? (s : List Char) : Option (Value × List Char) := do
  let token := s.takeWhile isScalarChar
  let rest := s.dropWhile isScalarChar
  match takeDate? token, rest with
  | some (date, []), ' ' :: behind =>
    match timeOfDate? (behind.takeWhile isScalarChar) with
    | some time =>
      return (.dateTime (String.ofList (date ++ 'T' :: time)), behind.dropWhile isScalarChar)
    | none => return (← ofScalarText? token, rest)
  | _, _ => return (← ofScalarText? token, rest)

end LintReport.Toml
