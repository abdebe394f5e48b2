import LintReport.Text.Hex

/-!
TOML strings: basic ones with escapes and literal ones without, on one line or over several lines.
Each function starts behind the opening quotes and returns the text with what follows the closing
ones.
-/
namespace LintReport.Toml

/-- The characters that may stand in a comment, or unescaped in a string: all but control
characters, of which the tab is allowed. -/
def isPlain (c : Char) : Bool := c = '\t' || (0x20 ≤ c.val && c.val ≠ 0x7F)

/-- The character that a one-letter escape stands for. -/
def shortEscape? : Char → Option Char
  | 'b' => some '\x08'
  | 't' => some '\t'
  | 'n' => some '\n'
  | 'f' => some '\x0c'
  | 'r' => some '\r'
  | '"' => some '"'
  | '\\' => some '\\'
  | _ => none

/-- The character with this code point, which must not be a surrogate. -/
def codePoint? (digits : List Char) : Option Char := do
  let n ← Text.hexValue? digits
  if n < 0xD800 ∨ (0xE000 ≤ n ∧ n < 0x110000) then some (Char.ofNat n) else none

/-- A character put before what has been read so far. -/
def cons (c : Char) (r : List Char × List Char) : List Char × List Char := (c :: r.1, r.2)

def takeBasic : List Char → Option (List Char × List Char)
  | [] => none
  | '"' :: s => some ([], s)
  | '\\' :: 'u' :: a :: b :: c :: d :: s => do
    return cons (← codePoint? [a, b, c, d]) (← takeBasic s)
  | '\\' :: 'U' :: a :: b :: c :: d :: e :: f :: g :: h :: s => do
    return cons (← codePoint? [a, b, c, d, e, f, g, h]) (← takeBasic s)
  | '\\' :: c :: s => do return cons (← shortEscape? c) (← takeBasic s)
  | c :: s => if isPlain c then (takeBasic s).map (cons c) else none

def takeLiteral : List Char → Option (List Char × List Char)
  | [] => none
  | '\'' :: s => some ([], s)
  | c :: s => if isPlain c then (takeLiteral s).map (cons c) else none

/-- The closing quotes have been read: up to two more belong to the text. -/
def extraQuotes (quote : Char) : List Char → List Char × List Char
  | a :: b :: s =>
    if a = quote ∧ b = quote then ([a, b], s)
    else if a = quote then ([a], b :: s)
    else ([], a :: b :: s)
  | [a] => if a = quote then ([a], []) else ([], [a])
  | [] => ([], [])

/-- Whether nothing but spaces stands between here and the end of the line. -/
def endsLine (s : List Char) : Bool :=
  match s.dropWhile fun c => c = ' ' || c = '\t' with
  | '\n' :: _ => true
  | '\r' :: '\n' :: _ => true
  | _ => false

/-- A basic string over several lines. A line end is a newline however it is written; a backslash at
the end of a line takes the white space that follows with it, which is what `folding` stands for. -/
def takeBasicLines (folding : Bool) : List Char → Option (List Char × List Char)
  | [] => none
  | '"' :: '"' :: '"' :: s => some (extraQuotes '"' s)
  | '\r' :: '\n' :: s =>
    if folding then takeBasicLines true s else (takeBasicLines false s).map (cons '\n')
  | '\n' :: s => if folding then takeBasicLines true s else (takeBasicLines false s).map (cons '\n')
  | '\\' :: 'u' :: a :: b :: c :: d :: s => do
    return cons (← codePoint? [a, b, c, d]) (← takeBasicLines false s)
  | '\\' :: 'U' :: a :: b :: c :: d :: e :: f :: g :: h :: s => do
    return cons (← codePoint? [a, b, c, d, e, f, g, h]) (← takeBasicLines false s)
  | '\\' :: c :: s =>
    if endsLine (c :: s) then takeBasicLines true (c :: s)
    else do return cons (← shortEscape? c) (← takeBasicLines false s)
  | c :: s =>
    if folding ∧ (c = ' ' ∨ c = '\t') then takeBasicLines true s
    else if isPlain c ∧ c ≠ '\\' then (takeBasicLines false s).map (cons c)
    else none

/-- A literal string over several lines. -/
def takeLiteralLines : List Char → Option (List Char × List Char)
  | [] => none
  | '\'' :: '\'' :: '\'' :: s => some (extraQuotes '\'' s)
  | '\r' :: '\n' :: s => (takeLiteralLines s).map (cons '\n')
  | '\n' :: s => (takeLiteralLines s).map (cons '\n')
  | c :: s => if isPlain c then (takeLiteralLines s).map (cons c) else none

/-- A line end directly behind the opening quotes is no part of the text. -/
def skipFirstLineEnd : List Char → List Char
  | '\n' :: s => s
  | '\r' :: '\n' :: s => s
  | s => s

/-- A string of any kind at the front of a text. -/
def takeText? : List Char → Option (List Char × List Char)
  | '"' :: '"' :: '"' :: s => takeBasicLines false (skipFirstLineEnd s)
  | '"' :: s => takeBasic s
  | '\'' :: '\'' :: '\'' :: s => takeLiteralLines (skipFirstLineEnd s)
  | '\'' :: s => takeLiteral s
  | _ => none

end LintReport.Toml
