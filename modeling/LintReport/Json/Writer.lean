import LintReport.Json.Value

/-!
Writing JSON: on one line without spaces, or over several lines with two spaces of indentation.
-/
namespace LintReport.Json

def quoted (written : List Char) : List Char := '"' :: written ++ ['"']

mutual

/-- On one line. -/
def compact : Json → List Char
  | null => "null".toList
  | bool true => "true".toList
  | bool false => "false".toList
  | number written => written
  | string written => quoted written
  | array items => '[' :: compactItems items ++ [']']
  | object members => '\x7b' :: compactMembers members ++ ['\x7d']

def compactItems : List Json → List Char
  | [] => []
  | [item] => compact item
  | item :: items => compact item ++ ',' :: compactItems items

def compactMembers : List (List Char × Json) → List Char
  | [] => []
  | [(key, value)] => quoted key ++ ':' :: compact value
  | (key, value) :: members => quoted key ++ ':' :: compact value ++ ',' :: compactMembers members

end

/-- A line end and the indentation of the next line. -/
def newline (depth : Nat) : List Char := '\n' :: List.replicate (2 * depth) ' '

mutual

/-- Over several lines, at the given depth of indentation: a line for each item and member. -/
def pretty (depth : Nat) : Json → List Char
  | null => "null".toList
  | bool true => "true".toList
  | bool false => "false".toList
  | number written => written
  | string written => quoted written
  | array [] => "[]".toList
  | array (item :: items) =>
    '[' :: prettyItems (depth + 1) (item :: items) ++ newline depth ++ [']']
  | object [] => ['\x7b', '\x7d']
  | object (member :: members) =>
    '\x7b' :: prettyMembers (depth + 1) (member :: members) ++ newline depth ++ ['\x7d']

def prettyItems (depth : Nat) : List Json → List Char
  | [] => []
  | [item] => newline depth ++ pretty depth item
  | item :: items => newline depth ++ pretty depth item ++ ',' :: prettyItems depth items

def prettyMembers (depth : Nat) : List (List Char × Json) → List Char
  | [] => []
  | [(key, value)] => newline depth ++ quoted key ++ ": ".toList ++ pretty depth value
  | (key, value) :: members =>
    newline depth ++ quoted key ++ ": ".toList ++ pretty depth value ++
      ',' :: prettyMembers depth members

end

end LintReport.Json
