import LintReport.Proofs.Diff.Printed
import LintReport.Proofs.NumeralGrammar

/-! The numbers that place a finding: the row and the column that a tool reports, and the start in a
hunk header. All of them are numerals of 32 bits and count from one. A greater one is refused, so
that no finding is placed at what is left of its number. -/

namespace LintReport.Diff

open Text (Numeral isBlank word32? oneBased)

/-- A hunk header taken apart at its second word, which is the range of the hunk in the old file, and
that word at its first comma and behind its sign. -/
structure HunkHeader where
  margin : List Char
  mark : List Char
  gap : List Char
  sign : List Char
  number : List Char
  /-- The length of the range, with the comma in front of it. -/
  length : List Char
  behind : List Char
  margin_blank : ∀ c ∈ margin, isBlank c = true
  mark_ne_nil : mark ≠ []
  mark_word : ∀ c ∈ mark, isBlank c = false
  gap_ne_nil : gap ≠ []
  gap_blank : ∀ c ∈ gap, isBlank c = true
  range_ne_nil : sign ++ number ++ length ≠ []
  range_word : ∀ c ∈ sign ++ number ++ length, isBlank c = false
  behind_apart : ∀ c ∈ behind.head?, isBlank c = true
  comma_free : ',' ∉ sign ++ number
  length_apart : ∀ c ∈ length.head?, c = ','
  sign_eq : sign = ['-'] ∨ sign = ['+'] ∨ sign = [] ∧ ∀ c ∈ number.head?, c ≠ '-' ∧ c ≠ '+'

namespace HunkHeader

/-- The second word. -/
def range (h : HunkHeader) : List Char := h.sign ++ h.number ++ h.length

def line (h : HunkHeader) : List Char := h.margin ++ (h.mark ++ (h.gap ++ (h.range ++ h.behind)))

theorem words_line (h : HunkHeader) :
    Text.words h.line = h.mark :: h.range :: Text.words h.behind := by
  have hgap : ∀ c ∈ (h.gap ++ (h.range ++ h.behind)).head?, isBlank c = true := by
    intro c hc
    rw [List.head?_append, Option.or_of_isSome (by simpa using h.gap_ne_nil)] at hc
    exact h.gap_blank c (List.mem_of_mem_head? hc)
  rw [line, Text.words_blank_append h.margin_blank,
    Text.words_word_append h.mark_ne_nil h.mark_word hgap, Text.words_blank_append h.gap_blank]
  exact congrArg _ (Text.words_word_append h.range_ne_nil h.range_word h.behind_apart)

theorem before_range (h : HunkHeader) : Text.before ',' h.range = h.sign ++ h.number := by
  unfold range
  cases hlength : h.length with
  | nil =>
    rw [List.append_nil]
    exact Text.before_eq_self h.comma_free
  | cons c s =>
    obtain rfl : c = ',' := h.length_apart c (by rw [hlength]; rfl)
    exact Text.before_append h.comma_free s

theorem withoutSign_start (h : HunkHeader) : withoutSign (h.sign ++ h.number) = h.number := by
  obtain hsign | hsign | ⟨hsign, hhead⟩ := h.sign_eq
  · rw [hsign]
    rfl
  · rw [hsign]
    rfl
  · rw [hsign, List.nil_append]
    unfold withoutSign
    split
    · rename_i s hs
      exact absurd rfl (hhead '-' (by rw [hs]; rfl)).1
    · rename_i s hs
      exact absurd rfl (hhead '+' (by rw [hs]; rfl)).2
    · rfl

/-- Only the number counts. -/
theorem hunkStart?_line (h : HunkHeader) : hunkStart? h.line = (word32? h.number).map oneBased := by
  unfold hunkStart?
  rw [h.words_line, List.getElem?_cons_succ, List.getElem?_cons_zero, Option.bind_eq_bind,
    Option.bind_some, h.before_range, h.withoutSign_start]
  cases word32? h.number <;> rfl

theorem exists_sign (start : List Char) :
    ∃ sign number, start = sign ++ number ∧
      (sign = ['-'] ∨ sign = ['+'] ∨ sign = [] ∧ ∀ c ∈ number.head?, c ≠ '-' ∧ c ≠ '+') := by
  cases start with
  | nil => exact ⟨[], [], rfl, .inr (.inr ⟨rfl, fun c hc => by cases hc⟩)⟩
  | cons c s =>
    by_cases hminus : c = '-'
    · exact ⟨['-'], s, by rw [hminus]; rfl, .inl rfl⟩
    by_cases hplus : c = '+'
    · exact ⟨['+'], s, by rw [hplus]; rfl, .inr (.inl rfl)⟩
    · exact ⟨[], c :: s, rfl, .inr (.inr ⟨rfl, fun d hd => Option.some.inj hd ▸ ⟨hminus, hplus⟩⟩)⟩

theorem exists_start (range : List Char) :
    ∃ start length, range = start ++ length ∧ ',' ∉ start ∧ ∀ c ∈ length.head?, c = ',' := by
  by_cases hmem : ',' ∈ range
  · obtain ⟨start, length, hrange, hfree⟩ := List.eq_append_cons_of_mem hmem
    exact ⟨start, ',' :: length, hrange, hfree, fun c hc => (Option.some.inj hc).symm⟩
  · exact ⟨range, [], (List.append_nil range).symm, hmem, fun c hc => by cases hc⟩

/-- A line with a second word is taken apart in this way. -/
theorem exists_line {l range : List Char} (h : (Text.words l)[1]? = some range) :
    ∃ h : HunkHeader, h.line = l := by
  obtain ⟨mark, ws, hwords, hws⟩ : ∃ mark ws, Text.words l = mark :: ws ∧ ws[0]? = some range := by
    cases hwords : Text.words l with
    | nil =>
      rw [hwords] at h
      cases h
    | cons mark ws =>
      rw [hwords] at h
      exact ⟨mark, ws, rfl, h⟩
  obtain ⟨ws, rfl⟩ := List.head?_eq_some_iff.1 (List.head?_eq_getElem?.trans hws)
  obtain ⟨margin, rest, rfl, hmargin, hmark, hmark', hrest, hwords⟩ :=
    Text.words_eq_cons_iff.1 hwords
  obtain ⟨gap, behind, rfl, hgap, hrange, hrange', hbehind, -⟩ := Text.words_eq_cons_iff.1 hwords
  have hgap' : gap ≠ [] := by
    rintro rfl
    obtain ⟨c, s, rfl⟩ := List.exists_cons_of_ne_nil hrange
    have hc := hrest c rfl
    rw [hrange' c List.mem_cons_self] at hc
    cases hc
  obtain ⟨start, length, rfl, hfree, hlength⟩ := exists_start range
  obtain ⟨sign, number, rfl, hsign⟩ := exists_sign start
  exact ⟨⟨margin, mark, gap, sign, number, length, behind, hmargin, hmark, hmark', hgap', hgap,
    hrange, hrange', hbehind, hfree, hlength, hsign⟩, rfl⟩

end HunkHeader

theorem hunkStart?_eq_some_iff {l : List Char} {n : UInt32} :
    hunkStart? l = some n ↔ ∃ (h : HunkHeader) (m : Numeral), h.line = l ∧ h.number = m.text ∧
      m.value < UInt32.size ∧ n.toNat = max m.value 1 := by
  constructor
  · intro hstart
    obtain ⟨range, hrange, -⟩ := Option.bind_eq_some_iff.1 hstart
    obtain ⟨h, rfl⟩ := HunkHeader.exists_line hrange
    obtain ⟨m, hm⟩ := Text.map_oneBased_eq_some_iff.1 (h.hunkStart?_line.symm.trans hstart)
    exact ⟨h, m, rfl, hm⟩
  · rintro ⟨h, m, rfl, hm⟩
    rw [h.hunkStart?_line]
    exact Text.map_oneBased_eq_some_iff.2 ⟨m, hm⟩

/-- A header as it is printed, with what follows it on its line. -/
def printedHeader (start count newStart newCount : Nat) (suffix : List Char) : List Char :=
  '@' :: '@' :: ' ' :: '-' :: (range start count ++
    ' ' :: '+' :: (range newStart newCount ++ ' ' :: '@' :: '@' :: suffix))

theorem hunkStart?_printedHeader (start count newStart newCount : Nat) (suffix : List Char) :
    hunkStart? (printedHeader start count newStart newCount suffix) =
      if start < UInt32.size then some (UInt32.ofNat (max start 1)) else none := by
  rw [printedHeader, range, List.append_assoc, List.cons_append, hunkStart?_range]
  split
  · rename_i hlt
    have hmax : max start 1 < UInt32.size := Nat.max_lt.2 ⟨hlt, by decide⟩
    rw [Option.some.injEq, ← UInt32.toNat_inj, Text.toNat_oneBased, UInt32.toNat_ofNat_of_lt' hlt,
      UInt32.toNat_ofNat_of_lt' hmax]
  · rfl

/-- The numbers that are read are the numerals below 2³², with a zero raised to one. A position is
read off a text that is one but for the white space at its ends, a start off a line whose second word
is one up to its first comma and behind a sign; no other text is read as a number. In particular a
printed header gives its start if 32 bits hold it, whatever else is printed, and nothing otherwise. -/
theorem reads_exactly_numerals :
    (∀ (s : List Char) (n : UInt32), Text.position? s = some n ↔
      ∃ m : Numeral, Text.trim s = m.text ∧ m.value < UInt32.size ∧ n.toNat = max m.value 1) ∧
    (∀ (l : List Char) (n : UInt32), hunkStart? l = some n ↔
      ∃ (h : HunkHeader) (m : Numeral), h.line = l ∧ h.number = m.text ∧
        m.value < UInt32.size ∧ n.toNat = max m.value 1) ∧
    ∀ (start count newStart newCount : Nat) (suffix : List Char),
      hunkStart? (printedHeader start count newStart newCount suffix) =
        if start < UInt32.size then some (UInt32.ofNat (max start 1)) else none :=
  ⟨fun _ _ => Text.map_oneBased_eq_some_iff, fun _ _ => hunkStart?_eq_some_iff,
    hunkStart?_printedHeader⟩

/-- The sign of the range is no part of the numeral, which may have another one. -/
example : hunkStart? "@@ -+007,2 +7 @@".toList = some 7 := by decide

end LintReport.Diff
