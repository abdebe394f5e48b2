import LintReport.Proofs.Lines
import LintReport.Proofs.Utf8

/-! Bytes that are whole lines. What follows them is decoded and split into lines as if nothing had
been before it, however damaged the lines are; a strict reading gives up both or neither. -/

namespace LintReport

open Text.Utf8

namespace Text.Utf8

theorem isValid_nil : IsValid [] := ⟨[], rfl⟩

theorem isValid_encode (s : List Char) : IsValid (encode s) := ⟨s, rfl⟩

theorem isSome_text?_iff {bytes : Bytes} : (text? bytes).isSome ↔ IsValid bytes := by
  simp only [Option.isSome_iff_exists, text?_eq_some_iff, IsValid]

theorem isValid_newline_iff (a b : Bytes) : IsValid (a ++ 0x0A :: b) ↔ IsValid a ∧ IsValid b := by
  rw [← isSome_text?_iff, ← isSome_text?_iff, ← isSome_text?_iff, text?_newline]
  cases text? a <;> simp

/-- Behind whole lines, validity is a matter of each part. -/
theorem isValid_append_iff {a : Bytes} (ha : Terminated a) (b : Bytes) :
    IsValid (a ++ b) ↔ IsValid a ∧ IsValid b := by
  obtain rfl | ⟨front, rfl⟩ := ha.cases
  · simp [isValid_nil]
  · rw [List.append_assoc, List.singleton_append, isValid_newline_iff, isValid_newline_iff]
    simp [isValid_nil]

end Text.Utf8

namespace Decoding

variable {a b : Bytes}

theorem read_strict_of_not_isValid (h : ¬IsValid a) : strict.read a = [] := by
  rw [read, text?_eq_none_iff.2 h]
  rfl

theorem lines_lossy_append (ha : Terminated a) (b : Bytes) :
    Text.lines (lossy.read (a ++ b)) =
      Text.lines (lossy.read a) ++ Text.lines (lossy.read b) := by
  obtain rfl | ⟨front, rfl⟩ := ha.cases
  · exact (congrArg (· ++ Text.lines (lossy.read b)) Text.lines_nil).symm
  · rw [List.append_assoc, List.singleton_append]
    simp only [read, lossyText_newline]
    exact Text.lines_newline _ _

theorem lines_strict_append (ha : Terminated a) (hvalid : IsValid a) (hvalid' : IsValid b) :
    Text.lines (strict.read (a ++ b)) =
      Text.lines (strict.read a) ++ Text.lines (strict.read b) := by
  obtain rfl | ⟨front, rfl⟩ := ha.cases
  · exact (congrArg (· ++ Text.lines (strict.read b)) Text.lines_nil).symm
  · obtain ⟨s, hs⟩ := ((isValid_newline_iff front []).1 hvalid).1
    obtain ⟨t, ht⟩ := hvalid'
    have hnil : text? [] = some [] := rfl
    rw [List.append_assoc, List.singleton_append]
    simp only [read, text?_newline, text?_eq_some_iff.2 hs, text?_eq_some_iff.2 ht, hnil]
    exact Text.lines_newline s t

end Decoding

end LintReport
