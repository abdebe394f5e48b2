import LintReport.Config.Basic
import LintReport.Config.Error
import LintReport.Toml.Reader

/-!
The settings of a project, read from the values of a TOML document. Every setting may be left out;
none may be added. A section is a table, or an array of its settings in their order.
-/
namespace LintReport.Config

open Toml (Value Entries)

/-- The items of an array of either kind. -/
def items? : Value → Option (List Value)
  | .array items => some items
  | .tables earlier last => some ((earlier ++ [last]).map (.table .header))
  | _ => none

/-- The settings that a section gives, of those with these names. -/
def section? (names : List String) : Value → Option Entries
  | .table _ entries => if entries.all (·.1 ∈ names) then some entries else none
  | value => (items? value).map (names.zip ·)

/-- A setting of a section, or its default when the section does not give it. -/
def setting? {α : Type} (entries : Entries) (name : String) (read? : Value → Option α)
    (standard : α) : Option α :=
  match entries.lookup name with
  | some value => read? value
  | none => some standard

def string? : Value → Option String
  | .string text => some text
  | _ => none

def boolean? : Value → Option Bool
  | .boolean value => some value
  | _ => none

def strings? (value : Value) : Option (List String) := do (← items? value).mapM string?

def trailingOfName? : String → Option Diff.Trailing
  | "discard" => some .discard
  | "flush" => some .flush
  | _ => none

/-- Whether a value holds nothing, as the value beside the name of a choice must. -/
def isEmpty : Value → Bool
  | .table _ entries => entries.isEmpty
  | .array items => items.isEmpty
  | _ => false

/-- A choice is its name, or a table whose only key is the name. -/
def trailing? : Value → Option Diff.Trailing
  | .string name => trailingOfName? name
  | .table _ [(name, value)] => if isEmpty value then trailingOfName? name else none
  | _ => none

/-- The key under which a date stands where a table is wanted. -/
def dateKey : String := "$__toml_private_datetime"

/-- The entries of a table. A date is read as a table with one entry. -/
def entries? : Value → Option Entries
  | .table _ entries => some entries
  | .dateTime text => some [(dateKey, .string text)]
  | _ => none

/-- A table all of whose values are read in the same way. -/
def dict? {α : Type} (read? : Value → Option α) (value : Value) : Option (Dict α) := do
  return .ofList (← (← entries? value).mapM fun (key, value) => do return (key, ← read? value))

def lintSettings? (value : Value) : Option LintSettings := do
  let entries ← section? ["tools", "paths", "tests", "trailing_hunk"] value
  return {
    tools := ← setting? entries "tools" (fun value => (strings? value).map some) none
    paths := ← setting? entries "paths" strings? []
    tests := ← setting? entries "tests" boolean? true
    trailing := ← setting? entries "trailing_hunk" trailing? .discard }

def toolSettings? (value : Value) : Option ToolSettings := do
  let entries ← section? ["program", "args", "env"] value
  return {
    program := ← setting? entries "program" (fun value => (string? value).map some) none
    args := ← setting? entries "args" (fun value => (strings? value).map some) none
    env := ← setting? entries "env" (dict? string?) .empty }

/-- The settings in a document, not yet validated. -/
def ofEntries? (document : Entries) : Option Config := do
  let entries ← section? ["lint", "tools"] (.table .header document)
  return {
    lint := ← setting? entries "lint" lintSettings? {}
    tools := ← setting? entries "tools" (dict? toolSettings?) .empty }

/-- The first name that is no known tool: of the listed tools first, then of the tools' sections. -/
def unknownTool? (c : Config) : Option String :=
  (c.lint.tools.getD [] ++ c.tools.keys).find? fun name => name ∉ knownTools

/-- The first tool whose program is blank. -/
def blankProgram? (c : Config) : Option String :=
  (c.tools.entries.find? fun (_, settings) =>
    settings.program.any fun program => (Text.trim program.toList).isEmpty).map (·.1)

def validate (c : Config) : Except ConfigError Config :=
  match c.unknownTool? with
  | some name => .error (.unknownTool name)
  | none =>
    match c.blankProgram? with
    | some tool => .error (.blankProgram tool)
    | none => .ok c

/-- The configuration in a document. -/
def ofDocument (document : Entries) : Except ConfigError Config :=
  match ofEntries? document with
  | some c => c.validate
  | none => .error .malformed

/-- The configuration in a text. -/
def ofText (text : List Char) : Except ConfigError Config :=
  match Toml.parse? text with
  | some document => ofDocument document
  | none => .error .malformed

/-- The name of the configuration file of a project. -/
def fileName : Path := ⟨"sieve.toml"⟩

/-- The configuration of the project in a directory. -/
def load (fs : FileSystem) (directory : Path) : Except ConfigError Config :=
  match fs.readText (directory.join fileName) with
  | .ok text => ofText text
  | .error failure => .error (.unreadable failure)

/-- The same, the defaults standing for a file that does not exist. -/
def loadOrDefault (fs : FileSystem) (directory : Path) : Except ConfigError Config :=
  match load fs directory with
  | .error (.unreadable .notFound) => .ok {}
  | result => result

end LintReport.Config
