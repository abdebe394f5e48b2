import LintReport.Diagnostic
import LintReport.Json.Reader
import LintReport.Json.Writer

/-!
The JSON form of a diagnostic: an object of its seven fields. They are written in the order of the
record and read in any order, other members being passed over; an array of the seven values in that
order is read as well.
-/
namespace LintReport

/-- A severity is its label, or an object whose only member maps the label to null. -/
def Severity.ofJson? : Json → Option Severity
  | .object [(label, .null)] => (Json.string label).text? >>= ofLabel?
  | json => json.text? >>= ofLabel?

namespace Diagnostic

def toJson (d : Diagnostic) : Json :=
  .object [
    ("severity".toList, .ofString d.severity.label),
    ("file".toList, .ofString d.file),
    ("line".toList, .ofNat d.line.toNat),
    ("column".toList, .ofNat d.column.toNat),
    ("source".toList, .ofString d.source),
    ("title".toList, .ofString d.title),
    ("message".toList, .ofString d.message)]

/-- The diagnostic with these values of its fields. -/
def ofFields? (severity file line column source title message : Json) : Option Diagnostic := do
  return {
    severity := ← Severity.ofJson? severity
    file := ← file.text?
    line := ← line.word32?
    column := ← column.word32?
    source := ← source.text?
    title := ← title.text?
    message := ← message.text? }

/-- The value of the only member with this name. -/
def field? (members : List (String × Json)) (name : String) : Option Json :=
  match members.filter (·.1 = name) with
  | [(_, value)] => some value
  | _ => none

/-- The members with their names as text. -/
def namedMembers? (members : List (List Char × Json)) : Option (List (String × Json)) :=
  members.mapM fun (key, value) => do return (← (Json.string key).text?, value)

def ofJson? : Json → Option Diagnostic
  | .object members => do
    let members ← namedMembers? members
    ofFields? (← field? members "severity") (← field? members "file") (← field? members "line")
      (← field? members "column") (← field? members "source") (← field? members "title")
      (← field? members "message")
  | .array [severity, file, line, column, source, title, message] =>
    ofFields? severity file line column source title message
  | _ => none

/-- Reads one diagnostic from a text. -/
def ofText? (s : String) : Option Diagnostic := Json.parse? s.toList >>= ofJson?

/-- Reads a list of diagnostics from a text. -/
def listOfText? (s : String) : Option (List Diagnostic) := do
  match ← Json.parse? s.toList with
  | .array items => items.mapM ofJson?
  | _ => none

def toText (d : Diagnostic) : String := String.ofList d.toJson.compact

/-- The list as an indented array. -/
def listToText (ds : List Diagnostic) : String :=
  String.ofList ((Json.array (ds.map toJson)).pretty 0)

end Diagnostic

end LintReport
