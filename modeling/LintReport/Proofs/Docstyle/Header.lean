import LintReport.Proofs.Lines
import LintReport.Parser.Docstyle

/-! The headers of two-line records. A header begins with the word `file:number`, which has exactly
one colon, and what follows that word is of no account. A line is the text of at most one header,
and it need not be one of a record: the number may be no number. -/

namespace LintReport.Parser.Docstyle

/-- A line taken apart whose first word is a file and a number, the number still as text. -/
structure Header where
  file : List Char
  number : List Char
  /-- What follows the first word. -/
  context : List Char
  file_word : ∀ c ∈ file, Text.isBlank c = false
  number_word : ∀ c ∈ number, Text.isBlank c = false
  file_free : ':' ∉ file
  number_free : ':' ∉ number
  context_apart : ∀ c ∈ context.head?, Text.isBlank c = true

namespace Header

def location (h : Header) : List Char := h.file ++ ':' :: h.number

def line (h : Header) : List Char := h.location ++ h.context

/-- The line that a header reports, if its number can be read. -/
def row? (h : Header) : Option UInt32 := Text.position? h.number

theorem leadingWord_line (h : Header) : Text.leadingWord h.line = h.location := by
  have hword : ∀ c ∈ h.location, Text.isBlank c = false := by
    intro c hc
    rcases List.mem_append.1 hc with hc | hc
    · exact h.file_word c hc
    · rcases List.mem_cons.1 hc with rfl | hc
      · rfl
      · exact h.number_word c hc
  rw [line, Text.leadingWord_append hword, Text.leadingWord_eq_nil h.context_apart, List.append_nil]

theorem splitHeader?_line (h : Header) : splitHeader? h.line = some (h.file, h.number) := by
  rw [splitHeader?, leadingWord_line, location, Text.cut?_append h.file_free]
  exact if_neg h.number_free

/-- A line that is taken apart is that of a header. -/
theorem exists_of_splitHeader? {l file number : List Char}
    (h : splitHeader? l = some (file, number)) :
    ∃ header : Header, header.line = l ∧ header.file = file ∧ header.number = number := by
  unfold splitHeader? at h
  split at h
  · rename_i a b hcut
    split at h
    · cases h
    · rename_i hnumber
      cases h
      obtain ⟨hlocation, hfile⟩ := Text.cut?_eq_some_iff.1 hcut
      have hword : ∀ c ∈ file ++ ':' :: number, Text.isBlank c = false := fun c hc =>
        Text.isBlank_of_mem_leadingWord (hlocation ▸ hc)
      have hcontext : ∀ c ∈ (l.dropWhile (!Text.isBlank ·)).head?, Text.isBlank c = true := by
        intro c hc
        have hhead := List.head?_dropWhile_not (!Text.isBlank ·) l
        rw [hc] at hhead
        simpa using hhead
      refine ⟨
        { file, number
          context := l.dropWhile (!Text.isBlank ·)
          file_word := fun c hc => hword c (List.mem_append_left _ hc)
          number_word := fun c hc => hword c (List.mem_append_right _ (List.mem_cons_of_mem _ hc))
          file_free := hfile
          number_free := hnumber
          context_apart := hcontext }, ?_, rfl, rfl⟩
      rw [line, location, ← hlocation]
      exact List.takeWhile_append_dropWhile
  · cases h

/-- A line is taken apart in at most one way. -/
theorem line_injective {g h : Header} (e : g.line = h.line) : g = h := by
  have hparts : (g.file, g.number) = (h.file, h.number) :=
    Option.some.inj (g.splitHeader?_line.symm.trans (e ▸ h.splitHeader?_line))
  obtain ⟨hfile, hnumber⟩ := Prod.mk.inj hparts
  have hcontext : g.context = h.context := by
    rw [line, line, location, location, hfile, hnumber] at e
    exact List.append_cancel_left e
  cases g
  cases h
  cases hfile
  cases hnumber
  cases hcontext
  rfl

end Header

def IsHeader (l : List Char) : Prop := ∃ h : Header, h.line = l

theorem splitHeader?_eq_some_iff {l file number : List Char} :
    splitHeader? l = some (file, number) ↔
      ∃ h : Header, h.line = l ∧ h.file = file ∧ h.number = number := by
  constructor
  · exact Header.exists_of_splitHeader?
  · rintro ⟨h, rfl, rfl, rfl⟩
    exact h.splitHeader?_line

theorem isSome_splitHeader?_iff {l : List Char} : (splitHeader? l).isSome ↔ IsHeader l := by
  simp only [Option.isSome_iff_exists, Prod.exists, splitHeader?_eq_some_iff, IsHeader]
  constructor
  · rintro ⟨_, _, h, hline, -, -⟩
    exact ⟨h, hline⟩
  · rintro ⟨h, hline⟩
    exact ⟨h.file, h.number, h, hline, rfl, rfl⟩

theorem splitHeader?_eq_none_iff {l : List Char} : splitHeader? l = none ↔ ¬IsHeader l := by
  rw [← isSome_splitHeader?_iff, Option.not_isSome_iff_eq_none]

instance (l : List Char) : Decidable (IsHeader l) := decidable_of_iff _ isSome_splitHeader?_iff

/-- An indented line, like an empty one, is no header. -/
theorem not_isHeader_of_indented {l : List Char} (h : ∀ c ∈ l.head?, Text.isBlank c = true) :
    ¬IsHeader l := by
  rw [← splitHeader?_eq_none_iff, splitHeader?, Text.leadingWord_eq_nil h]
  rfl

/-! ### What is seen of a line -/

/-- All that is looked at in a line: as a header, its location, and as a message, its text. -/
def view (l : List Char) : Option (List Char × List Char) × List Char :=
  (splitHeader? l, Text.trim l)

theorem view_withoutReturn (l : List Char) : view (Text.withoutReturn l) = view l := by
  rw [view, view, splitHeader?, splitHeader?, Text.leadingWord_withoutReturn,
    Text.trim_withoutReturn]

end LintReport.Parser.Docstyle
