import LintReport.Toml.Quoted
import LintReport.Toml.Scalar

/-!
Reading TOML: a document is a sequence of lines, each an assignment, a header or nothing, and its
tables are assembled from them. Every function takes its part off the front of a text.
-/
namespace LintReport.Toml

def skipSpace (s : List Char) : List Char := s.dropWhile fun c => c = ' ' || c = '\t'

/-- White space, line ends and comments, as they may stand between the items of an array. -/
def skipFill (inComment : Bool) : List Char → List Char
  | [] => []
  | '\n' :: s => skipFill false s
  | '\r' :: '\n' :: s => skipFill false s
  | c :: s =>
    if inComment then (if isPlain c then skipFill true s else c :: s)
    else if c = '#' then skipFill true s
    else if c = ' ' ∨ c = '\t' then skipFill false s
    else c :: s

/-- The end of a line or of the document, with space and a comment allowed before it. -/
def lineEnd? (s : List Char) : Option (List Char) :=
  let s := match skipSpace s with
    | '#' :: s => s.dropWhile isPlain
    | s => s
  match s with
  | [] => some []
  | '\n' :: s => some s
  | '\r' :: '\n' :: s => some s
  | _ => none

def isBareKeyChar (c : Char) : Bool := c.isAlphanum || c = '-' || c = '_'

/-- One part of a key. -/
def takeName? : List Char → Option (String × List Char)
  | '"' :: s => (takeBasic s).map fun (name, rest) => (String.ofList name, rest)
  | '\'' :: s => (takeLiteral s).map fun (name, rest) => (String.ofList name, rest)
  | s =>
    let name := s.takeWhile isBareKeyChar
    if name = [] then none else some (String.ofList name, s.dropWhile isBareKeyChar)

/-- How many parts a key may have, and how deep arrays and inline tables may be nested. -/
def limit : Nat := 79

/-- A key of at most as many parts as given, with space allowed around each. -/
def takeKey? : Nat → List Char → Option (Key × List Char)
  | 0, _ => none
  | parts + 1, s => do
    let (name, s) ← takeName? (skipSpace s)
    match skipSpace s with
    | '.' :: s =>
      let (key, s) ← takeKey? parts s
      return ({ key with through := name :: key.through }, s)
    | s => return ({ through := [], name }, s)

/-- The items of an array up to its closing bracket. -/
def takeItems? (takeValue? : List Char → Option (Value × List Char)) :
    Nat → List Char → Option (List Value × List Char)
  | 0, _ => none
  | bound + 1, s =>
    match skipFill false s with
    | ']' :: s => some ([], s)
    | s => do
      let (item, s) ← takeValue? s
      match skipFill false s with
      | ',' :: s =>
        let (items, s) ← takeItems? takeValue? bound s
        return (item :: items, s)
      | ']' :: s => return ([item], s)
      | _ => none

/-- A key, an equals sign and a value. -/
def takeAssignment? (takeValue? : List Char → Option (Value × List Char)) (s : List Char) :
    Option ((Key × Value) × List Char) := do
  let (key, s) ← takeKey? limit s
  match s with
  | '=' :: s =>
    let (value, s) ← takeValue? (skipSpace s)
    return ((key, value), s)
  | _ => none

/-- The assignments of an inline table up to its closing brace, at least one. -/
def takeAssignments? (takeValue? : List Char → Option (Value × List Char)) :
    Nat → List Char → Option (List (Key × Value) × List Char)
  | 0, _ => none
  | bound + 1, s => do
    let (assignment, s) ← takeAssignment? takeValue? s
    match skipSpace s with
    | ',' :: s =>
      let (assignments, s) ← takeAssignments? takeValue? bound s
      return (assignment :: assignments, s)
    | '\x7d' :: s => return ([assignment], s)
    | _ => none

/-- A value that holds no others: a string, a boolean, a number, or a date and time. -/
def takeLeaf? : List Char → Option (Value × List Char)
  | 't' :: 'r' :: 'u' :: 'e' :: s => some (.boolean true, s)
  | 'f' :: 'a' :: 'l' :: 's' :: 'e' :: s => some (.boolean false, s)
  | c :: s =>
    if c = '"' ∨ c = '\'' then
      (takeText? (c :: s)).map fun (text, rest) => (.string (String.ofList text), rest)
    else takeScalar? (c :: s)
  | [] => none

/-- A value whose arrays and inline tables are nested at most as deep as given. A leaf is no level
of its own, and an array or an inline table is one even if it is empty. -/
def takeValue? : Nat → List Char → Option (Value × List Char)
  | depth + 1, '[' :: s => do
    let (items, rest) ← takeItems? (takeValue? depth) (s.length + 1) s
    return (.array items, rest)
  | depth + 1, '\x7b' :: s => do
    let (assignments, rest) ← match skipSpace s with
      | '\x7d' :: s => some ([], s)
      | s => takeAssignments? (takeValue? depth) (s.length + 1) s
    return (← inlineTable assignments, rest)
  | _, s => takeLeaf? s

/-- The expression at the front of a line that is not empty, up to the end of its last line. -/
def takeExpression? : List Char → Option (Expression × List Char)
  | '[' :: '[' :: s => do
    let (key, s) ← takeKey? limit s
    match s with
    | ']' :: ']' :: s => return (.itemHeader key, s)
    | _ => none
  | '[' :: s => do
    let (key, s) ← takeKey? limit s
    match s with
    | ']' :: s => return (.header key, s)
    | _ => none
  | s => do
    let ((key, value), s) ← takeAssignment? (takeValue? limit) s
    return (.assignment key value, s)

/-- The expressions of a document, in at most as many lines as given. -/
def takeExpressions? : Nat → List Char → Option (List Expression)
  | 0, _ => none
  | bound + 1, s =>
    match skipSpace s with
    | [] => some []
    | '#' :: s => do takeExpressions? bound (← lineEnd? ('#' :: s))
    | '\n' :: s => takeExpressions? bound s
    | '\r' :: '\n' :: s => takeExpressions? bound s
    | s => do
      let (expression, s) ← takeExpression? s
      return expression :: (← takeExpressions? bound (← lineEnd? s))

/-- The entries of the document that a text is. A byte order mark may stand before it. -/
def parse? (s : List Char) : Option Entries := do
  let s := match s with | '\uFEFF' :: s => s | s => s
  assemble (← takeExpressions? (s.length + 1) s)

end LintReport.Toml
