/-!
TOML values, and the assembly of the tables of a document from its headers and assignments. How a
table came about decides what may still be added to it, so every table remembers its origin.
-/
namespace LintReport.Toml

inductive Origin where
  /-- Written between braces, and complete. -/
  | inline
  /-- Named by a header of its own; the document is one as well. -/
  | header
  /-- Passed through by the header of a table inside it. -/
  | implied
  /-- Passed through by a dotted key. -/
  | dotted
  deriving DecidableEq, Repr

inductive Value where
  | string (text : String)
  | integer (value : Int)
  /-- A float, as it is written. -/
  | float (written : String)
  | boolean (value : Bool)
  /-- A date, a time or both, in their usual notation. -/
  | dateTime (text : String)
  | array (items : List Value)
  | table (origin : Origin) (entries : List (String × Value))
  /-- An array of tables that double-bracket headers name; `last` is the one most recently named. -/
  | tables (earlier : List (List (String × Value))) (last : List (String × Value))
  deriving Repr, Inhabited

/-- The entries of a table, in no particular order, with distinct keys. -/
abbrev Entries := List (String × Value)

/-- A possibly dotted key: the tables that it passes through and the name in the last of them. -/
structure Key where
  through : List String
  name : String
  deriving DecidableEq, Repr

namespace Entries

/-- Sets the value of a key. -/
def put (key : String) (value : Value) : Entries → Entries
  | [] => [(key, value)]
  | entry :: rest => if entry.1 = key then (key, value) :: rest else entry :: put key value rest

/-- Applies a change to the table that a header path leads to, and makes the tables that are missing
on the way. The path goes into the last table of an array of tables, and through no other value. -/
def within (change : Entries → Option Entries) : List String → Entries → Option Entries
  | [], entries => change entries
  | key :: path, entries =>
    match entries.lookup key with
    | none => do return put key (.table .implied (← within change path [])) entries
    | some (.table .inline _) => none
    | some (.table origin inner) => do
      return put key (.table origin (← within change path inner)) entries
    | some (.tables earlier last) => do
      return put key (.tables earlier (← within change path last)) entries
    | some _ => none

/-- The start of a table under its header. Only a table that other headers implied may exist. -/
def openTable (name : String) (entries : Entries) : Option Entries :=
  match entries.lookup name with
  | none => some (put name (.table .header []) entries)
  | some (.table .implied inner) => some (put name (.table .header inner) entries)
  | some _ => none

/-- The start of the next table of an array of tables. -/
def openItem (name : String) (entries : Entries) : Option Entries :=
  match entries.lookup name with
  | none => some (put name (.tables [] []) entries)
  | some (.tables earlier last) => some (put name (.tables (earlier ++ [last]) []) entries)
  | some _ => none

/-- Adds a value under a key that is not yet there. A dotted key makes the tables that are
missing; it adds to no table that a header named, and ends only in tables made by dotted keys. -/
def assign (name : String) (value : Value) : List String → Entries → Option Entries
  | [], entries => if (entries.lookup name).isSome then none else some (put name value entries)
  | key :: path, entries =>
    match entries.lookup key with
    | none => do return put key (.table .dotted (← assign name value path [])) entries
    | some (.table .dotted inner) => do
      return put key (.table .dotted (← assign name value path inner)) entries
    | some (.table .implied inner) =>
      if path = [] then none
      else do return put key (.table .implied (← assign name value path inner)) entries
    | some (.tables earlier last) =>
      if path = [] then none
      else do return put key (.tables earlier (← assign name value path last)) entries
    | some _ => none

end Entries

/-- One line of a document that says something. -/
inductive Expression where
  | assignment (key : Key) (value : Value)
  | header (key : Key)
  | itemHeader (key : Key)
  deriving Repr

/-- The entries of a document, read on from the table at `current`. -/
def assembleFrom (current : List String) (entries : Entries) : List Expression → Option Entries
  | [] => some entries
  | .assignment key value :: rest => do
    assembleFrom current (← entries.within (Entries.assign key.name value key.through) current) rest
  | .header key :: rest => do
    assembleFrom (key.through ++ [key.name])
      (← entries.within (Entries.openTable key.name) key.through) rest
  | .itemHeader key :: rest => do
    assembleFrom (key.through ++ [key.name])
      (← entries.within (Entries.openItem key.name) key.through) rest

/-- The entries of a document; `none` if a key is defined twice or added to where it must not be. -/
def assemble (document : List Expression) : Option Entries := assembleFrom [] [] document

/-- The table between braces that consists of these assignments. -/
def inlineTable (assignments : List (Key × Value)) : Option Value := do
  let entries ← assignments.foldlM
    (fun entries (key, value) => Entries.assign key.name value key.through entries) []
  return .table .inline entries

end LintReport.Toml
