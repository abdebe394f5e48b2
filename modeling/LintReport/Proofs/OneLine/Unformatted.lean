import LintReport.Proofs.Lines
import LintReport.Proofs.OneLine.Grammar
import LintReport.Proofs.Utf8

/-! The grammar of what black writes about a file that it cannot format. A line is a record if it
can be taken apart into `level:failure:summary:row:column:message` and its numbers can be read; the
file is what follows the last space of the failure. -/

namespace LintReport.Parser

/-- A line taken apart at its first five colons, the white space at its ends left aside. -/
structure Failure (line : List Char) where
  level : List Char
  /-- What went wrong, with the file as its last word. -/
  failure : List Char
  summary : List Char
  row : List Char
  column : List Char
  message : List Char
  trim_eq : Text.trim line = level ++ ':' :: (failure ++ ':' :: (summary ++ ':' :: (row ++ ':' ::
    (column ++ ':' :: message))))
  level_free : ':' ∉ level
  failure_free : ':' ∉ failure
  summary_free : ':' ∉ summary
  row_free : ':' ∉ row
  column_free : ':' ∉ column

/-- The record of a failure. -/
def Failure.finding {line : List Char} (f : Failure line) (row column : UInt32) (source : String) :
    Diagnostic where
  severity := .ofLabel f.level
  file := String.ofList (Text.afterLast ' ' f.failure)
  line := row
  column := column
  source := source
  title := String.ofList (Text.trim f.summary)
  message := String.ofList (Text.trim f.message)

namespace OneLineFormat

theorem unformatted?_eq_some_iff {source : String} {line : List Char} {d : Diagnostic} :
    unformatted? source line = some d ↔
      ∃ (f : Failure line) (row column : UInt32), Text.position? f.row = some row ∧
        Text.position? f.column = some column ∧ d = f.finding row column source := by
  simp only [unformatted?, bind, Option.bind_eq_some_iff, pure, Option.some.injEq]
  constructor
  · rintro ⟨⟨level, s⟩, hlevel, ⟨failure, s₁⟩, hfailure, ⟨summary, s₂⟩, hsummary, ⟨row, s₃⟩, hrow,
      ⟨column, message⟩, hcolumn, n, hn, m, hm, rfl⟩
    obtain ⟨htrim, hfree⟩ := Text.cut?_eq_some_iff.1 hlevel
    obtain ⟨rfl, hfree₁⟩ := Text.cut?_eq_some_iff.1 hfailure
    obtain ⟨rfl, hfree₂⟩ := Text.cut?_eq_some_iff.1 hsummary
    obtain ⟨rfl, hfree₃⟩ := Text.cut?_eq_some_iff.1 hrow
    obtain ⟨rfl, hfree₄⟩ := Text.cut?_eq_some_iff.1 hcolumn
    exact ⟨⟨level, failure, summary, row, column, message, htrim, hfree, hfree₁, hfree₂, hfree₃,
      hfree₄⟩, n, m, hn, hm, rfl⟩
  · rintro ⟨f, n, m, hn, hm, rfl⟩
    exact ⟨_, Text.cut?_eq_some_iff.2 ⟨f.trim_eq, f.level_free⟩, _, Text.cut?_append f.failure_free _,
      _, Text.cut?_append f.summary_free _, _, Text.cut?_append f.row_free _,
      _, Text.cut?_append f.column_free _, n, hn, m, hm, rfl⟩

/-! ### Written lines -/

variable {format : OneLineFormat}

/-- White space at the ends of a line is of no account. -/
theorem record?_congr {l m : List Char} (h : Text.trim l = Text.trim m) :
    format.record? l = format.record? m := by
  rw [record?_eq_parseLine?, record?_eq_parseLine?]
  cases format <;> simp only [parseLine?, positioned?, levelled?, unformatted?, h]

theorem record?_withoutReturn (l : List Char) :
    format.record? (Text.withoutReturn l) = format.record? l :=
  record?_congr (Text.trim_withoutReturn l)

/-- Output that is written from some lines has their records, whatever ends the lines. -/
theorem records_of_written {ls : List (List Char)} {text : List Char} (h : Text.Written ls text)
    (hfree : ∀ l ∈ ls, '\n' ∉ l) :
    (oneLine format).records (Text.Utf8.encode text) = ls.filterMap format.record? := by
  have hlines : (oneLine format).lines (Text.Utf8.encode text) = Text.lines text :=
    congrArg Text.lines (Decoding.read_encode _ text)
  have hrecords := h.map_lines (f := format.record?) record?_withoutReturn hfree
  have hfilter (ls : List (List Char)) :
      ls.filterMap format.record? = (ls.map format.record?).filterMap id := by
    rw [List.filterMap_map]
    rfl
  rw [records_eq_filterMap, hlines, hfilter, hfilter ls, hrecords]

end OneLineFormat

end LintReport.Parser
