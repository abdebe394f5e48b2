import LintReport.Json.Value

/-!
Reading JSON: each function takes the part it is named for off the front of a text and returns it
with the text behind it. The nesting of values is followed with a depth that the length of the
text bounds.
-/
namespace LintReport.Json

def skipSpace (s : List Char) : List Char :=
  s.dropWhile fun c => c = ' ' || c = '\n' || c = '\t' || c = '\r'

/-- The inside of a string whose opening quote has been read. -/
def takeString : List Char → Option (List Char × List Char)
  | [] => none
  | '"' :: s => some ([], s)
  | '\\' :: 'u' :: a :: b :: c :: d :: s =>
    if (codeUnit? a b c d).isSome then
      (takeString s).map fun (inside, rest) => ('\\' :: 'u' :: a :: b :: c :: d :: inside, rest)
    else none
  | '\\' :: c :: s =>
    if (shortEscape? c).isSome then
      (takeString s).map fun (inside, rest) => ('\\' :: c :: inside, rest)
    else none
  | c :: s =>
    if isControl c then none
    else (takeString s).map fun (inside, rest) => (c :: inside, rest)

/-- At least one digit. -/
def takeDigits (s : List Char) : Option (List Char × List Char) :=
  match s.takeWhile Char.isDigit with
  | [] => none
  | d :: ds => some (d :: ds, s.dropWhile Char.isDigit)

/-- Digits that begin with a zero only if they are nothing more. -/
def takeInteger : List Char → Option (List Char × List Char)
  | '0' :: s => some (['0'], s)
  | s => takeDigits s

def takeFraction : List Char → Option (List Char × List Char)
  | '.' :: s => (takeDigits s).map fun (ds, rest) => ('.' :: ds, rest)
  | s => some ([], s)

def takeExponent : List Char → Option (List Char × List Char)
  | e :: s =>
    if e = 'e' ∨ e = 'E' then
      match s with
      | '+' :: s => (takeDigits s).map fun (ds, rest) => (e :: '+' :: ds, rest)
      | '-' :: s => (takeDigits s).map fun (ds, rest) => (e :: '-' :: ds, rest)
      | s => (takeDigits s).map fun (ds, rest) => (e :: ds, rest)
    else some ([], e :: s)
  | [] => some ([], [])

def takeNumber (s : List Char) : Option (List Char × List Char) := do
  let (sign, s) := match s with | '-' :: s => (['-'], s) | s => ([], s)
  let (whole, s) ← takeInteger s
  let (fraction, s) ← takeFraction s
  let (exponent, s) ← takeExponent s
  return (sign ++ whole ++ fraction ++ exponent, s)

mutual

/-- A value, with white space allowed before it. -/
def takeValue : Nat → List Char → Option (Json × List Char)
  | 0, _ => none
  | depth + 1, s =>
    match skipSpace s with
    | 'n' :: 'u' :: 'l' :: 'l' :: s => some (null, s)
    | 't' :: 'r' :: 'u' :: 'e' :: s => some (bool true, s)
    | 'f' :: 'a' :: 'l' :: 's' :: 'e' :: s => some (bool false, s)
    | '"' :: s => (takeString s).map fun (inside, rest) => (string inside, rest)
    | '[' :: s =>
      match skipSpace s with
      | ']' :: s => some (array [], s)
      | s => (takeItems depth s).map fun (items, rest) => (array items, rest)
    | '{' :: s =>
      match skipSpace s with
      | '}' :: s => some (object [], s)
      | s => (takeMembers depth s).map fun (members, rest) => (object members, rest)
    | s => (takeNumber s).map fun (written, rest) => (number written, rest)

/-- The items of an array up to its closing bracket, at least one. -/
def takeItems : Nat → List Char → Option (List Json × List Char)
  | 0, _ => none
  | depth + 1, s => do
    let (item, s) ← takeValue depth s
    match skipSpace s with
    | ',' :: s => (takeItems depth s).map fun (items, rest) => (item :: items, rest)
    | ']' :: s => some ([item], s)
    | _ => none

/-- The members of an object up to its closing brace, at least one. -/
def takeMembers : Nat → List Char → Option (List (List Char × Json) × List Char)
  | 0, _ => none
  | depth + 1, s =>
    match skipSpace s with
    | '"' :: s => do
      let (key, s) ← takeString s
      match skipSpace s with
      | ':' :: s =>
        let (value, s) ← takeValue depth s
        match skipSpace s with
        | ',' :: s =>
          (takeMembers depth s).map fun (members, rest) => ((key, value) :: members, rest)
        | '}' :: s => some ([(key, value)], s)
        | _ => none
      | _ => none
    | _ => none

end

/-- The value that a text consists of. -/
def parse? (s : List Char) : Option Json := do
  let (value, rest) ← takeValue (2 * s.length + 2) s
  if skipSpace rest = [] then some value else none

end LintReport.Json
