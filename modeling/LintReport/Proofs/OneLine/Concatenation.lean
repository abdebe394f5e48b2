import LintReport.Proofs.OneLine.Records
import LintReport.Proofs.WholeLines

/-! One-line output put together from parts. If the first part is whole lines, then the records of
both are those of the one and those of the other; damaged bytes cost the record of their own line in
a lossy reading, and all records in a strict one. -/

namespace LintReport.Parser

open Polling Text.Utf8

/-- The records and the count of skipped lines of two outputs in one are those of the two. -/
def Joins (p : Parser) (a b : Bytes) : Prop :=
  p.records (a ++ b) = p.records a ++ p.records b ∧
    (p.stream (a ++ b)).exhausted.skipped =
      (p.stream a).exhausted.skipped + (p.stream b).exhausted.skipped

namespace OneLineFormat

variable {format : OneLineFormat} {a b : Bytes}

theorem joins_of_lines (h : (oneLine format).lines (a ++ b) =
    (oneLine format).lines a ++ (oneLine format).lines b) : Joins (oneLine format) a b := by
  constructor
  · simp only [records_eq_filterMap, h, List.filterMap_append]
  · simp only [skipped_exhausted, h, List.countP_append]

theorem lines_eq (format : OneLineFormat) (output : Bytes) :
    (oneLine format).lines output = Text.lines (format.decoding.read output) := rfl

theorem joins_of_lossy (hformat : format.decoding = .lossy) (ha : Terminated a) (b : Bytes) :
    Joins (oneLine format) a b := by
  apply joins_of_lines
  simp only [lines_eq, hformat]
  exact Decoding.lines_lossy_append ha b

theorem joins_of_strict (hformat : format.decoding = .strict) (ha : Terminated a)
    (hvalid : IsValid a) (hvalid' : IsValid b) : Joins (oneLine format) a b := by
  apply joins_of_lines
  simp only [lines_eq, hformat]
  exact Decoding.lines_strict_append ha hvalid hvalid'

/-- A strict format has nothing to say about output that is not valid. -/
theorem records_of_not_isValid (hformat : format.decoding = .strict) {output : Bytes}
    (h : ¬IsValid output) :
    (oneLine format).records output = [] ∧
      ((oneLine format).stream output).exhausted.skipped = 0 := by
  rw [records_eq_filterMap, skipped_exhausted, lines_eq, hformat,
    Decoding.read_strict_of_not_isValid h, Text.lines_nil]
  exact ⟨rfl, rfl⟩

theorem lines_lossy_line {line : Bytes} (h : 0x0A ∉ line) :
    Text.lines (Decoding.lossy.read (line ++ [0x0A])) =
      [Text.withoutReturn (lossyText line)] := by
  have hline := Text.lines_append (newline_not_mem_lossyText h) []
  rw [Text.lines_nil] at hline
  rw [Decoding.read, lossyText_newline]
  exact hline

/-- A single line, whatever its bytes are, is worth at most the one record that it is read as. -/
theorem records_line (hformat : format.decoding = .lossy) {line : Bytes} (h : 0x0A ∉ line) :
    (oneLine format).records (line ++ [0x0A]) =
      (format.record? (Text.withoutReturn (lossyText line))).toList := by
  rw [records_eq_filterMap, lines_eq, hformat, lines_lossy_line h]
  cases hrecord : format.record? (Text.withoutReturn (lossyText line)) <;> simp [hrecord]

theorem records_around_line (hformat : format.decoding = .lossy) (ha : Terminated a) {line : Bytes}
    (h : 0x0A ∉ line) (b : Bytes) :
    (oneLine format).records (a ++ (line ++ [0x0A]) ++ b) =
      (oneLine format).records a ++
        (format.record? (Text.withoutReturn (lossyText line))).toList ++
          (oneLine format).records b := by
  have hline : Terminated (a ++ (line ++ [0x0A])) := .inr (by simp)
  rw [(joins_of_lossy hformat hline b).1, (joins_of_lossy hformat ha _).1, records_line hformat h]

/-! ### Two formats that differ in their tool -/

/-- A record as that of another tool. -/
def relabel (source : String) (d : Diagnostic) : Diagnostic := { d with source := source }

theorem positioned?_relabel (source source' : String) (line : List Char) :
    positioned? source' line = (positioned? source line).map (relabel source') := by
  simp only [positioned?, bind, pure, Option.map_bind, Function.comp_def, Option.map_some]
  rfl

theorem record?_pylint (line : List Char) :
    pylint.record? line = (flake8.record? line).map (relabel "pylint") := by
  unfold record?
  split
  · exact positioned?_relabel _ _ line
  · rfl

/-- A stream of flake8 and one of pylint that have read the same of the same lines. -/
inductive Alike : Stream → Stream → Prop
  | mk (rest : List (List Char)) (skipped : Nat) :
    Alike (.oneLine { format := flake8, rest, skipped })
      (.oneLine { format := pylint, rest, skipped })

theorem Alike.next {s t : Stream} (h : Alike s t) :
    t.next.1 = s.next.1.map (relabel "pylint") ∧ Alike s.next.2 t.next.2 := by
  obtain ⟨rest, skipped⟩ := h
  simp only [Stream.next, OneLineStream.next, Prod.map_fst, Prod.map_snd, id]
  induction rest generalizing skipped with
  | nil => exact ⟨rfl, .mk [] skipped⟩
  | cons line rest ih =>
    unfold OneLineStream.nextFrom
    rw [record?_pylint]
    cases flake8.record? line with
    | none => exact ih (skipped + 1)
    | some d => exact ⟨rfl, .mk rest skipped⟩

theorem Alike.skipped_eq {s t : Stream} (h : Alike s t) : t.skipped = s.skipped := by
  obtain ⟨rest, skipped⟩ := h
  rfl

theorem alike_stream {output : Bytes} (h : IsValid output) :
    Alike ((oneLine flake8).stream output) ((oneLine pylint).stream output) := by
  obtain ⟨text, rfl⟩ := h
  have hlines : (oneLine pylint).lines (encode text) = (oneLine flake8).lines (encode text) := by
    simp only [lines_eq, Decoding.read_encode]
  rw [stream_eq, stream_eq, hlines]
  exact .mk _ 0

theorem alike_after {output : Bytes} (h : IsValid output) (k : Nat) :
    Alike (after Stream.next ((oneLine flake8).stream output) k)
      (after Stream.next ((oneLine pylint).stream output) k) :=
  after_related (fun _ _ h => h.next.2) (alike_stream h) k

/-- Behind whole lines, mypy and pylint read what follows as if it stood alone, and a line of any
bytes between others adds at most its own record. So do flake8 and black on valid output; if either
part is not valid, they read nothing of the whole. On valid output, flake8 and pylint cannot be told
apart but by the source of their records. -/
theorem joins_of_terminated :
    (∀ format ∈ [mypy, pylint], ∀ a b, Terminated a →
      Joins (oneLine format) a b ∧
        ∀ line, 0x0A ∉ line → (oneLine format).records (a ++ (line ++ [0x0A]) ++ b) =
          (oneLine format).records a ++
            (format.record? (Text.withoutReturn (lossyText line))).toList ++
              (oneLine format).records b) ∧
    (∀ format ∈ [flake8, blackErrors], ∀ a b, Terminated a →
      (IsValid a ∧ IsValid b → Joins (oneLine format) a b) ∧
        (¬(IsValid a ∧ IsValid b) → (oneLine format).records (a ++ b) = [] ∧
          ((oneLine format).stream (a ++ b)).exhausted.skipped = 0)) ∧
    ∀ output, IsValid output → ∀ k,
      answer Stream.next ((oneLine pylint).stream output) k =
          (answer Stream.next ((oneLine flake8).stream output) k).map (relabel "pylint") ∧
        (after Stream.next ((oneLine pylint).stream output) k).skipped =
          (after Stream.next ((oneLine flake8).stream output) k).skipped := by
  refine ⟨?_, ?_, ?_⟩
  · intro format hmem a b ha
    have hformat : format.decoding = .lossy := by
      simp only [List.mem_cons, List.not_mem_nil, or_false] at hmem
      rcases hmem with rfl | rfl <;> rfl
    exact ⟨joins_of_lossy hformat ha b, fun line hline => records_around_line hformat ha hline b⟩
  · intro format hmem a b ha
    have hformat : format.decoding = .strict := by
      simp only [List.mem_cons, List.not_mem_nil, or_false] at hmem
      rcases hmem with rfl | rfl <;> rfl
    refine ⟨fun h => joins_of_strict hformat ha h.1 h.2, fun h => ?_⟩
    exact records_of_not_isValid hformat fun hvalid => h ((isValid_append_iff ha b).1 hvalid)
  · intro output hvalid k
    exact ⟨(alike_after hvalid k).next.1, (alike_after hvalid k).skipped_eq⟩

/-- A character that is cut off by the end of its line. -/
def damaged : Bytes := encode "a.py:1:1: W ".toList ++ [0xE2, 0x82, 0x0A]

def undamaged : Bytes := encode "b.py:2:3: C\n".toList

theorem joins_of_terminated_damaged :
    Terminated damaged ∧ ¬IsValid damaged ∧ IsValid undamaged ∧
      Joins (oneLine pylint) damaged undamaged ∧
      (oneLine flake8).records (damaged ++ undamaged) = [] ∧
      answer Stream.next ((oneLine pylint).stream undamaged) 0 =
        (answer Stream.next ((oneLine flake8).stream undamaged) 0).map (relabel "pylint") := by
  have hterminated : Terminated damaged := .inr (by decide)
  have hdamaged : ¬IsValid damaged := text?_eq_none_iff.1 (by decide)
  have hvalid : IsValid undamaged := ⟨_, rfl⟩
  obtain ⟨hlossy, hstrict, hsame⟩ := joins_of_terminated
  exact ⟨hterminated, hdamaged, hvalid,
    (hlossy pylint (by decide) damaged undamaged hterminated).1,
    ((hstrict flake8 (by decide) damaged undamaged hterminated).2 fun h => hdamaged h.1).1,
    (hsame undamaged hvalid 0).1⟩

end OneLineFormat

end LintReport.Parser
