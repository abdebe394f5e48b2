import LintReport.Config.Basic
import LintReport.Parser

/-!
A toolchain: parsers in a fixed order, and the one stream of records that they make of the outputs
of all tools. Parsers come one after the other, each reading no further than it is asked to.
-/
namespace LintReport

/-- What a program that ran left behind. -/
structure ToolOutput where
  /-- The exit code, at which no parser looks. -/
  exitCode : Int
  stdout : Bytes
  stderr : Bytes
  deriving DecidableEq, Repr

def ToolOutput.channel (o : ToolOutput) : Channel → Bytes
  | .stdout => o.stdout
  | .stderr => o.stderr

/-- The output of each tool that ran. -/
abbrev ToolOutputs := String → Option ToolOutput

structure Toolchain where
  parsers : List Parser
  deriving DecidableEq, Repr

namespace Toolchain

def empty : Toolchain := ⟨[]⟩

/-- Adds a parser behind all others. -/
def register (t : Toolchain) (p : Parser) : Toolchain := ⟨t.parsers ++ [p]⟩

/-- The parsers of the known tools. Black has two: what it cannot format, and what it would
change. -/
def builtinParsers (trailing : Diff.Trailing) : List Parser := [
  .diff { name := "isort-diff", source := "isort", title := "isort alteration", trailing },
  .oneLine .blackErrors,
  .diff { name := "black-diff", source := "black", title := "Black alteration", trailing },
  .oneLine .flake8,
  .oneLine .mypy,
  .oneLine .pylint,
  .docstyle]

def registerBuiltins (t : Toolchain) (trailing : Diff.Trailing) : Toolchain :=
  (builtinParsers trailing).foldl register t

/-- Keeps the parsers whose tool satisfies `keep`, in their order. -/
def retain (t : Toolchain) (keep : String → Bool) : Toolchain :=
  ⟨t.parsers.filter fun p => keep p.tool⟩

/-- The parsers of the tools that the settings enable. -/
def ofSettings (s : LintSettings) : Toolchain :=
  (empty.registerBuiltins s.trailing).retain s.isEnabled

def parserNames (t : Toolchain) : List String := t.parsers.map Parser.name

/-- The tools that have a parser, each once, in the order of their first parsers. -/
def tools (t : Toolchain) : List String :=
  t.parsers.foldl (fun tools p => if p.tool ∈ tools then tools else tools ++ [p.tool]) []

/-- The merged records of some outputs, read as far as they are asked for: the parsers whose turn
has not come, the stream of the current one, and the skipped lines of those that are done. -/
structure Run where
  outputs : ToolOutputs
  pending : List Parser
  current : Option Parser.Stream
  banked : Nat

namespace Run

/-- How many lines the parsers have skipped so far, all together. -/
def skipped (r : Run) : Nat := r.banked + (r.current.map Parser.Stream.skipped).getD 0

/-- The first record of the pending parsers. A tool without output has no records. -/
def advance (outputs : ToolOutputs) : List Parser → Nat → Option Diagnostic × Run
  | [], banked => (none, { outputs, pending := [], current := none, banked })
  | p :: pending, banked =>
    match outputs p.tool with
    | none => advance outputs pending banked
    | some output =>
      match (p.stream (output.channel p.channel)).next with
      | (some d, s) => (some d, { outputs, pending, current := some s, banked })
      | (none, s) => advance outputs pending (banked + s.skipped)

/-- The next record, if there is one more, and the run behind it. -/
def next (r : Run) : Option Diagnostic × Run :=
  match r.current with
  | none => advance r.outputs r.pending r.banked
  | some s =>
    match s.next with
    | (some d, s) => (some d, { r with current := some s })
    | (none, s) => advance r.outputs r.pending (r.banked + s.skipped)

/-- A bound on the records of the current stream. -/
def remaining (r : Run) : Nat := (r.current.map Parser.Stream.remaining).getD 0

theorem length_pending_lt_of_advance {outputs : ToolOutputs} {pending : List Parser} {n : Nat}
    {d : Diagnostic} {r : Run} (h : advance outputs pending n = (some d, r)) :
    r.pending.length < pending.length := by
  fun_induction advance outputs pending n with
  | case1 => simp at h
  | case2 p pending n _ ih => have := ih h; simp only [List.length_cons]; omega
  | case3 p pending n output _ e s _ =>
    simp only [Prod.mk.injEq] at h
    simp [← h.2]
  | case4 p pending n output _ s _ ih => have := ih h; simp only [List.length_cons]; omega

/-- A record takes something of the current stream, or a pending parser. -/
theorem next_decreases {r r' : Run} {d : Diagnostic} (h : r.next = (some d, r')) :
    r'.pending.length < r.pending.length ∨
      r'.pending.length = r.pending.length ∧ r'.remaining < r.remaining := by
  unfold next at h
  split at h
  · exact .inl (length_pending_lt_of_advance h)
  · rename_i s hs
    split at h
    · rename_i e s' hn
      simp only [Prod.mk.injEq, Option.some.injEq] at h
      obtain ⟨rfl, rfl⟩ := h
      exact .inr ⟨rfl, by simpa [remaining, hs] using Parser.Stream.remaining_lt_of_next hn⟩
    · exact .inl (length_pending_lt_of_advance h)

/-- All records to come. -/
def toList (r : Run) : List Diagnostic :=
  match _next : r.next with
  | (none, _) => []
  | (some d, r') => d :: toList r'
termination_by (r.pending.length, r.remaining)
decreasing_by
  rcases next_decreases _next with h | ⟨h, h'⟩
  · exact Prod.Lex.left _ _ h
  · exact h ▸ Prod.Lex.right _ h'

end Run

/-- The merged records, none of them read yet. -/
def run (t : Toolchain) (outputs : ToolOutputs) : Run :=
  { outputs, pending := t.parsers, current := none, banked := 0 }

/-- The records of one parser; none if its tool has no output. -/
def recordsOf (outputs : ToolOutputs) (p : Parser) : List Diagnostic :=
  match outputs p.tool with
  | some output => p.records (output.channel p.channel)
  | none => []

/-- The records of all parsers, each parser reading its output on its own. -/
def runParallel (t : Toolchain) (outputs : ToolOutputs) : List Diagnostic :=
  (t.parsers.map (recordsOf outputs)).flatten

end Toolchain

end LintReport
