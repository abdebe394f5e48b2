import LintReport.Diagnostic

/-!
Diagnostics as they are gathered: all of them in order, and how many there are of each severity.
-/
namespace LintReport

structure Tally where
  diagnostics : Array Diagnostic
  errors : Nat
  warnings : Nat
  notices : Nat
  deriving DecidableEq, Repr

namespace Tally

def empty : Tally := ⟨#[], 0, 0, 0⟩

def add (t : Tally) (d : Diagnostic) : Tally :=
  let t := { t with diagnostics := t.diagnostics.push d }
  match d.severity with
  | .error => { t with errors := t.errors + 1 }
  | .warning => { t with warnings := t.warnings + 1 }
  | .notice => { t with notices := t.notices + 1 }

def addAll (t : Tally) (ds : List Diagnostic) : Tally := ds.foldl add t

def hasErrors (t : Tally) : Bool := t.errors > 0

end Tally

end LintReport
