import LintReport.Text.Hex
import LintReport.Text.Numeral

/-!
JSON values. Strings and numbers are kept as they are written, so that reading a document is a
matter of syntax alone; what a string or a number means is asked of it afterwards, and only where
it is used.
-/
namespace LintReport

inductive Json where
  | null
  | bool (value : Bool)
  | number (written : List Char)
  | string (written : List Char)
  | array (items : List Json)
  | object (members : List (List Char × Json))
  deriving Repr, Inhabited

namespace Json

/-- The code unit that four hexadecimal digits name. -/
def codeUnit? (a b c d : Char) : Option Nat := Text.hexValue? [a, b, c, d]

/-- The character that a one-letter escape stands for. -/
def shortEscape? : Char → Option Char
  | '"' => some '"'
  | '\\' => some '\\'
  | '/' => some '/'
  | 'b' => some '\x08'
  | 'f' => some '\x0c'
  | 'n' => some '\n'
  | 'r' => some '\r'
  | 't' => some '\t'
  | _ => none

def isControl (c : Char) : Bool := c.val < 0x20

/-- A code unit with the unit behind it, when the two are needed for one character. -/
def ofUnits? (unit : Nat) (next : Option Nat) : Option (Char × Bool) :=
  if unit < 0xD800 ∨ 0xE000 ≤ unit then some (Char.ofNat unit, false)
  else if unit < 0xDC00 then
    match next with
    | some low =>
      if 0xDC00 ≤ low ∧ low < 0xE000 then
        some (Char.ofNat (0x10000 + (unit - 0xD800) * 0x400 + (low - 0xDC00)), true)
      else none
    | none => none
  else none

/-- The text of a written string, without its quotes: `none` when an escape is not one of the
format, or names half of a surrogate pair. -/
def unescape? : List Char → Option (List Char)
  | [] => some []
  | '\\' :: 'u' :: a :: b :: c :: d :: '\\' :: 'u' :: e :: f :: g :: h :: s => do
    let unit ← codeUnit? a b c d
    let (char, pair) ← ofUnits? unit (codeUnit? e f g h)
    if pair then return char :: (← unescape? s)
    return char :: (← unescape? ('\\' :: 'u' :: e :: f :: g :: h :: s))
  | '\\' :: 'u' :: a :: b :: c :: d :: s => do
    let unit ← codeUnit? a b c d
    let (char, _) ← ofUnits? unit none
    return char :: (← unescape? s)
  | '\\' :: c :: s => do return (← shortEscape? c) :: (← unescape? s)
  | c :: s => do
    if c = '"' ∨ c = '\\' ∨ isControl c then none
    else return c :: (← unescape? s)

def escapeChar (c : Char) : List Char :=
  match c with
  | '"' => ['\\', '"']
  | '\\' => ['\\', '\\']
  | '\x08' => ['\\', 'b']
  | '\x0c' => ['\\', 'f']
  | '\n' => ['\\', 'n']
  | '\r' => ['\\', 'r']
  | '\t' => ['\\', 't']
  | c =>
    if isControl c then
      ['\\', 'u', '0', '0', Text.hexDigit (c.toNat / 16), Text.hexDigit (c.toNat % 16)]
    else [c]

/-- A text as it is written between quotes: only quotes, backslashes and control characters need an
escape. -/
def escape (s : List Char) : List Char := s.flatMap escapeChar

def ofString (s : String) : Json := string (escape s.toList)

def ofNat (n : Nat) : Json := number (Text.decimal n)

/-- The text of a string value. -/
def text? : Json → Option String
  | string written => (unescape? written).map String.ofList
  | _ => none

/-- The value of a number of 32 bits that is written without sign, fraction and exponent. -/
def word32? : Json → Option UInt32
  | number written => do
    let value ← Text.digits? written
    if value < UInt32.size then some (UInt32.ofNat value) else none
  | _ => none

end Json

end LintReport
