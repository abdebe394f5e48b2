import LintReport.Proofs.Diff.Segmentation
import LintReport.Proofs.OneLine.Unformatted

/-! Who reports a record. A stream names one tool, no poll changes which, and every record that it
gives carries that tool as its source; so the records of a parser are known by their source as
those of the parser's tool. -/

namespace LintReport

namespace Parser

/-! ### Lines and headers -/

namespace OneLineFormat

theorem source_of_positioned? {source : String} {line : List Char} {d : Diagnostic}
    (h : positioned? source line = some d) : d.source = source := by
  obtain ⟨f, row, column, -, -, rfl⟩ := positioned?_eq_some_iff.1 h
  rfl

theorem source_of_levelled? {source : String} {line : List Char} {d : Diagnostic}
    (h : levelled? source line = some d) : d.source = source := by
  obtain ⟨f, row, -, rfl⟩ := levelled?_eq_some_iff.1 h
  rfl

theorem source_of_unformatted? {source : String} {line : List Char} {d : Diagnostic}
    (h : unformatted? source line = some d) : d.source = source := by
  obtain ⟨f, row, column, -, -, rfl⟩ := unformatted?_eq_some_iff.1 h
  rfl

theorem source_of_record? {format : OneLineFormat} {line : List Char} {d : Diagnostic}
    (h : format.record? line = some d) : d.source = format.tool := by
  unfold record? at h
  split at h
  · cases format with
    | flake8 => exact source_of_positioned? h
    | mypy => exact source_of_levelled? h
    | pylint => exact source_of_positioned? h
    | blackErrors => exact source_of_unformatted? h
  · cases h

end OneLineFormat

theorem OneLineStream.source_of_nextFrom {format : OneLineFormat} {rest : List (List Char)}
    {n : Nat} {d : Diagnostic} {t : OneLineStream} (h : nextFrom format rest n = (some d, t)) :
    d.source = format.tool ∧ t.format = format := by
  obtain ⟨_, _, -, -, hrecord, hformat, -⟩ := exists_of_nextFrom h
  exact ⟨OneLineFormat.source_of_record? hrecord, hformat⟩

theorem DocstyleStream.source_of_nextFrom {rest : List (List Char)} {n : Nat} {d : Diagnostic}
    {t : DocstyleStream} (h : nextFrom rest n = (some d, t)) : d.source = source := by
  obtain ⟨_, _, _, _, _, _, -, -, -, rfl⟩ := exists_of_nextFrom h
  rfl

end Parser

/-! ### Hunks -/

namespace Diff.Scanner

theorem source_of_flush {s : Scanner} {d : Diagnostic} (h : s.flush.1 = some d) :
    d.source = s.source := by
  unfold flush at h
  split at h
  · unfold record? at h
    split at h
    · cases h
    · cases h
      rfl
  · cases h

theorem source_of_feed {s : Scanner} {line : List Char} {d : Diagnostic}
    (h : (s.feed line).1 = some d) : d.source = s.source := by
  unfold feed at h
  split at h
  · cases h
  · exact source_of_flush h
  · exact source_of_flush h
  · cases h

theorem source_of_finish {s : Scanner} {trailing : Trailing} {d : Diagnostic}
    (h : (s.finish trailing).1 = some d) : d.source = s.source := by
  cases trailing with
  | discard => cases h
  | flush => exact source_of_flush h

end Diff.Scanner

namespace Parser

theorem HunkStream.source_of_nextFrom {trailing : Diff.Trailing} {rest : List (List Char)}
    {scanner : Diff.Scanner} {d : Diagnostic} {t : HunkStream}
    (h : nextFrom trailing rest scanner = (some d, t)) :
    d.source = scanner.source ∧ t.scanner.source = scanner.source := by
  rcases cases_of_nextFrom h with ⟨passed, line, -, -, hfeed⟩ | ⟨-, -, hfinish⟩
  · have hscan := (scanner.source_title_scan passed).1
    have hnext := ((scanner.scan passed).2.source_title_feed line).1
    rw [hfeed] at hnext
    exact ⟨(Diff.Scanner.source_of_feed (congrArg Prod.fst hfeed)).trans hscan, hnext.trans hscan⟩
  · have hscan := (scanner.source_title_scan rest).1
    have hnext : t.scanner.source = (scanner.scan rest).2.source :=
      congrArg (fun r => r.2.source) hfinish.symm
    exact ⟨(Diff.Scanner.source_of_finish (congrArg Prod.fst hfinish)).trans hscan,
      hnext.trans hscan⟩

theorem HunkStream.source_of_next {s t : HunkStream} {d : Diagnostic} (h : s.next = (some d, t)) :
    d.source = s.scanner.source ∧ t.scanner.source = s.scanner.source := by
  unfold next at h
  split at h
  · simp at h
  · exact source_of_nextFrom h

/-! ### Whole streams -/

namespace Stream

/-- The tool whose output a stream reads. -/
def tool : Stream → String
  | oneLine s => s.format.tool
  | docstyle _ => DocstyleStream.source
  | hunks s => s.scanner.source

/-- A poll answers for the stream's tool, and leaves it the stream's tool. -/
theorem source_of_next {s t : Stream} {d : Diagnostic} (h : s.next = (some d, t)) :
    d.source = s.tool ∧ t.tool = s.tool := by
  obtain ⟨u, v, rfl, rfl, hnext⟩ | ⟨u, v, rfl, rfl, hnext⟩ | ⟨u, v, rfl, rfl, hnext⟩ :=
    cases_of_next h
  · obtain ⟨hsource, hformat⟩ := OneLineStream.source_of_nextFrom hnext
    exact ⟨hsource, congrArg OneLineFormat.tool hformat⟩
  · exact ⟨DocstyleStream.source_of_nextFrom hnext, rfl⟩
  · exact HunkStream.source_of_next hnext

/-- What each poll answers with has a property if every poll gives it and keeps what it rests on. -/
theorem forall_mem_toList (inv : Stream → Prop) {good : Diagnostic → Prop}
    (step : ∀ s d t, inv s → s.next = (some d, t) → good d ∧ inv t) {s : Stream} (h : inv s) :
    ∀ d ∈ s.toList, good d := by
  fun_induction toList s with
  | case1 => exact List.forall_mem_nil _
  | case2 s d t hnext ih =>
    obtain ⟨hd, ht⟩ := step s d t h hnext
    exact List.forall_mem_cons.2 ⟨hd, ih ht⟩

theorem source_of_mem_toList (s : Stream) : ∀ d ∈ s.toList, d.source = s.tool := by
  refine forall_mem_toList (fun t => t.tool = s.tool) (fun t d u ht hnext => ?_) rfl
  obtain ⟨hd, hu⟩ := source_of_next hnext
  exact ⟨hd.trans ht, hu.trans ht⟩

end Stream

theorem tool_stream (p : Parser) (output : Bytes) : (p.stream output).tool = p.tool := by
  cases p <;> rfl

/-- The records of a parser carry its tool as their source. -/
theorem source_of_mem_records {p : Parser} {output : Bytes} {d : Diagnostic}
    (h : d ∈ p.records output) : d.source = p.tool :=
  ((p.stream output).source_of_mem_toList d h).trans (p.tool_stream output)

end Parser

end LintReport
