import LintReport.CommandLine.Basic
import LintReport.Text.Field

/-!
Reading a command line. Each of its two levels, the program's and the command's, collects what is
given in it. A value that stands in an argument of its own is looked at only when the next option
or path comes, or the level ends, so that of two faults the one met first in this sense is
reported. The command's level ends before the program's.
-/
namespace LintReport.CommandLine

/-- What is given at a level. -/
structure Given where
  switches : List Switch := []
  color : Option ColorChoice := none
  config : Option String := none
  format : Option Format := none
  tools : List String := []
  paths : List String := []
  deriving DecidableEq, Repr

namespace Given

def has (g : Given) (s : Switch) : Bool := s ∈ g.switches

/-- Gives a setting that may be given once its value. -/
def setOnce {α : Type} (s : Setting) (value : String) (old : Option α) (read? : String → Option α) :
    Except Refusal α :=
  match old, read? value with
  | some _, _ => .error (.repeated (.setting s))
  | none, some new => .ok new
  | none, none => .error (.invalidValue s value)

/-- Gives a setting its value. Tools may be named any number of times, all else once. -/
def set (g : Given) (s : Setting) (value : String) : Except Refusal Given :=
  match s with
  | .color => do
    return { g with color := some (← setOnce s value g.color ColorChoice.ofName?) }
  | .config => do
    return { g with config := some (← setOnce s value g.config some) }
  | .format => do
    return { g with format := some (← setOnce s value g.format Format.ofName?) }
  | .tool =>
    if value ∈ knownTools then .ok { g with tools := g.tools ++ [value] }
    else .error (.invalidValue s value)

def scan (g : Given) : ScanRequest :=
  { ci := g.has .ci, noTests := g.has .noTests, tools := g.tools, paths := g.paths }

end Given

/-- A setting whose value is not looked at yet. -/
inductive Pending where
  | nothing
  /-- The value has not come. -/
  | awaiting (s : Setting)
  | filled (s : Setting) (value : String)
  deriving DecidableEq, Repr

/-- A level while it is read. -/
structure Level where
  scope : Scope
  given : Given := {}
  pending : Pending := .nothing
  /-- Whether two lone dashes have come, behind which there are no options. -/
  trailing : Bool := false
  deriving DecidableEq, Repr

namespace Level

def set (l : Level) (s : Setting) (value : String) : Except Refusal Level := do
  return { l with given := ← l.given.set s value }

/-- Looks at the pending value. -/
def settle (l : Level) : Except Refusal Level :=
  match l.pending with
  | .nothing => .ok l
  | .awaiting s => .error (.missingValue s)
  | .filled s value => { l with pending := .nothing }.set s value

def flip (l : Level) (s : Switch) : Except Refusal Level := do
  let l ← l.settle
  match s with
  | .help => .error (.help l.scope)
  | .version => .error .version
  | s =>
    if l.given.has s then .error (.repeated (.switch s))
    else .ok { l with given := { l.given with switches := l.given.switches ++ [s] } }

/-- A setting, with its value if that stands in the same argument. -/
def begin (l : Level) (s : Setting) (attached : Option String) : Except Refusal Level := do
  let l ← l.settle
  match attached with
  | some value => l.set s value
  | none => .ok { l with pending := .awaiting s }

/-- The name of a long option, and the value behind the first equals sign. -/
def nameAndValue (text : List Char) : String × Option String :=
  match Text.cut? '=' text with
  | some (name, value) => (String.ofList name, some (String.ofList value))
  | none => (String.ofList text, none)

/-- An argument that begins with two dashes, given without them. -/
def long (l : Level) (text : List Char) : Except Refusal Level :=
  let (name, attached) := nameAndValue text
  match l.scope.named? name, attached with
  | none, _ => .error (.unknownArgument ("--" ++ name))
  | some (.switch s), none => l.flip s
  | some (.switch s), some _ => .error (.unexpectedValue s)
  | some (.setting s), attached => l.begin s attached

/-- The value that follows the letter of a setting in the same argument. -/
def valueBehindLetter : List Char → Option String
  | [] => none
  | '=' :: value => some (String.ofList value)
  | value => some (String.ofList value)

/-- An argument that begins with one dash, given without it: switches, and perhaps a setting at
last. -/
def letters (l : Level) : List Char → Except Refusal Level
  | [] => .ok l
  | c :: rest =>
    match l.scope.lettered? c with
    | none => .error (.unknownArgument ("-" ++ c.toString))
    | some (.switch s) => do letters (← l.flip s) rest
    | some (.setting s) => l.begin s (valueBehindLetter rest)

/-- An argument that is no option and no value. Before the command, nothing but its name may
stand. -/
def positional (l : Level) (arg : String) : Except Refusal Level :=
  match l.scope with
  | .program =>
    if l.trailing && arg ∈ ["lint", "tools", "help"] then .error (.unknownArgument arg)
    else .error (.unknownCommand arg)
  | _ => do
    let l ← l.settle
    return { l with given := { l.given with paths := l.given.paths ++ [arg] } }

/-- One argument. -/
def step (l : Level) (arg : String) : Except Refusal Level :=
  if l.trailing then l.positional arg
  else
    match arg.toList with
    | ['-', '-'] => .ok { l with trailing := true }
    | '-' :: '-' :: text => l.long text
    | '-' :: c :: rest => l.letters (c :: rest)
    | _ =>
      match l.pending with
      | .awaiting s => .ok { l with pending := .filled s arg }
      | _ => l.positional arg

/-- Whether the next argument may name a command. -/
def takesCommand (l : Level) : Bool :=
  !l.trailing &&
    match l.pending with
    | .awaiting _ => false
    | _ => true

end Level

/-- All that is given behind a command. -/
def commandLevel (scope : Scope) (args : List String) : Except Refusal Given := do
  let l ← args.foldlM Level.step { scope }
  return (← l.settle).given

/-- What both levels give together; in the settings the command's level comes first. -/
def combine (top inner : Given) (command : Command) : CommandLine where
  quiet := top.has .quiet || inner.has .quiet
  verbose := top.has .verbose || inner.has .verbose
  color := ((inner.color <|> top.color)).getD .auto
  config := inner.config <|> top.config
  command

/-- What the command `help` shows for the arguments behind it. -/
def helpAbout : List String → Refusal
  | [] | ["help"] => .help .program
  | ["lint"] => .help .lint
  | ["tools"] => .help .tools
  | name :: rest =>
    if name ∈ ["lint", "tools", "help"] then .unknownCommand (rest.headD name)
    else .unknownCommand name

/-- A command, from the arguments behind its name. -/
def command? : String → List String → Option (Except Refusal (Given × Command))
  | "lint", args => some do
    let g ← commandLevel .lint args
    return (g, .lint g.scan g.format)
  | "tools", args => some do
    let g ← commandLevel .tools args
    return (g, .tools g.scan)
  | "help", args => some (.error (helpAbout args))
  | _, _ => none

/-- The rest of a command line, from within the program's level. -/
def readFrom (top : Level) : List String → Except Refusal CommandLine
  | [] => do
    let top ← top.settle
    .error (if top.given = {} then .noArguments else .missingCommand)
  | arg :: rest =>
    match if top.takesCommand then command? arg rest else none with
    | some found => do
      let (inner, command) ← found
      return combine (← top.settle).given inner command
    | none => do readFrom (← top.step arg) rest

/-- Reads the arguments of the program, without its name. -/
def read (args : List String) : Except Refusal CommandLine := readFrom { scope := .program } args

end LintReport.CommandLine
