import Mathlib.Data.Nat.Digits.Defs
import LintReport.Proofs.Numerals

/-! The texts that are read as numbers: digits with at most one plus sign in front, however many
zeros they begin with, as long as 32 bits hold their value. -/

namespace LintReport.Text

/-- A number as it may be written. -/
structure Numeral where
  plus : Bool
  digits : List (Fin 10)
  digits_ne_nil : digits ≠ []

namespace Numeral

def digit (d : Fin 10) : Char := Nat.digitChar d

def text (m : Numeral) : List Char := (if m.plus then ['+'] else []) ++ m.digits.map digit

/-- The last digit counts ones, and every other one ten times what it would count one place
further on. -/
def value (m : Numeral) : Nat := Nat.ofDigits 10 (m.digits.map Fin.val).reverse

theorem isDigit_digit (d : Fin 10) : (digit d).isDigit = true := by
  rw [digit, Nat.isDigit_digitChar]
  exact decide_eq_true d.isLt

theorem exists_digit {c : Char} (h : c.isDigit = true) : ∃ d, digit d = c := by
  obtain ⟨hlow, hhigh⟩ := Char.isDigit_iff_toNat.1 h
  have hlow : 48 ≤ c.toNat := hlow
  have hhigh : c.toNat ≤ 57 := hhigh
  have hlt : c.toNat - 48 < 10 := by omega
  refine ⟨⟨c.toNat - 48, hlt⟩, Char.toNat_inj.1 ?_⟩
  rw [digit, Nat.toNat_digitChar_of_lt_ten hlt]
  omega

theorem exists_digits {s : List Char} (h : ∀ c ∈ s, c.isDigit = true) :
    ∃ ds : List (Fin 10), ds.map digit = s := by
  induction s with
  | nil => exact ⟨[], rfl⟩
  | cons c s ih =>
    obtain ⟨hc, hs⟩ := List.forall_mem_cons.1 h
    obtain ⟨d, rfl⟩ := exists_digit hc
    obtain ⟨ds, rfl⟩ := ih hs
    exact ⟨d :: ds, rfl⟩

/-- Reading from the first digit on comes to the same value as counting from the last one. -/
theorem ofDigitChars_digits (ds : List (Fin 10)) :
    Nat.ofDigitChars 10 (ds.map digit) 0 = Nat.ofDigits 10 (ds.map Fin.val).reverse := by
  induction ds with
  | nil => rfl
  | cons d ds ih =>
    rw [List.map_cons, digit, Nat.ofDigitChars_cons_digitChar_of_lt_ten d.isLt,
      Nat.ofDigitChars_eq_ofDigitChars_zero, ih, List.map_cons, Nat.ofDigits_reverse_cons,
      List.length_map, List.length_map, Nat.mul_zero, Nat.zero_add, Nat.add_comm]

end Numeral

theorem digits?_eq_some_iff {s : List Char} {v : Nat} :
    digits? s = some v ↔ ∃ ds : List (Fin 10), ds ≠ [] ∧ s = ds.map Numeral.digit ∧
      v = Nat.ofDigits 10 (ds.map Fin.val).reverse := by
  rw [digits?, Option.ite_none_right_eq_some, Option.some.injEq, List.all_eq_true]
  constructor
  · rintro ⟨⟨hne, hs⟩, rfl⟩
    obtain ⟨ds, rfl⟩ := Numeral.exists_digits hs
    exact ⟨ds, fun h => hne (h ▸ rfl), rfl, Numeral.ofDigitChars_digits ds⟩
  · rintro ⟨ds, hne, rfl, rfl⟩
    refine ⟨⟨fun h => hne (List.map_eq_nil_iff.1 h), fun c hc => ?_⟩, Numeral.ofDigitChars_digits ds⟩
    obtain ⟨d, -, rfl⟩ := List.mem_map.1 hc
    exact Numeral.isDigit_digit d

namespace Numeral

theorem withoutPlus_text (m : Numeral) : withoutPlus m.text = m.digits.map digit := by
  unfold text
  cases m.plus with
  | true => rfl
  | false =>
    refine withoutPlus_eq_self fun h => ?_
    obtain ⟨d, -, hd⟩ := List.mem_map.1 h
    exact absurd (hd ▸ isDigit_digit d) (by decide)

theorem exists_text {s : List Char} {ds : List (Fin 10)} (hne : ds ≠ [])
    (h : withoutPlus s = ds.map digit) : ∃ m : Numeral, m.text = s ∧ m.digits = ds := by
  unfold withoutPlus at h
  split at h
  · exact ⟨⟨true, ds, hne⟩, by rw [h]; rfl, rfl⟩
  · exact ⟨⟨false, ds, hne⟩, h.symm, rfl⟩

end Numeral

/-- A text is read as a number of 32 bits if and only if it is a numeral with that value. -/
theorem word32?_eq_some_iff {s : List Char} {n : UInt32} :
    word32? s = some n ↔ ∃ m : Numeral, s = m.text ∧ m.value = n.toNat := by
  rw [word32?_eq, Option.bind_eq_some_iff]
  constructor
  · rintro ⟨v, hv, hn⟩
    obtain ⟨ds, hne, hs, rfl⟩ := digits?_eq_some_iff.1 hv
    obtain ⟨m, rfl, rfl⟩ := Numeral.exists_text hne hs
    obtain ⟨hlt, hn⟩ := Option.ite_none_right_eq_some.1 hn
    refine ⟨m, rfl, ?_⟩
    rw [← Option.some.inj hn, UInt32.toNat_ofNat_of_lt' hlt]
    rfl
  · rintro ⟨m, rfl, hvalue⟩
    refine ⟨m.value, digits?_eq_some_iff.2 ⟨m.digits, m.digits_ne_nil, m.withoutPlus_text, rfl⟩, ?_⟩
    rw [hvalue, if_pos n.toNat_lt, UInt32.ofNat_toNat]

/-- A number is read off a text if and only if that is a numeral whose value fits. -/
theorem map_oneBased_eq_some_iff {s : List Char} {n : UInt32} :
    (word32? s).map oneBased = some n ↔
      ∃ m : Numeral, s = m.text ∧ m.value < UInt32.size ∧ n.toNat = max m.value 1 := by
  rw [Option.map_eq_some_iff]
  constructor
  · rintro ⟨k, hk, rfl⟩
    obtain ⟨m, hs, hvalue⟩ := word32?_eq_some_iff.1 hk
    exact ⟨m, hs, hvalue ▸ k.toNat_lt, hvalue ▸ toNat_oneBased k⟩
  · rintro ⟨m, hs, hlt, hn⟩
    have hvalue := UInt32.toNat_ofNat_of_lt' hlt
    refine ⟨UInt32.ofNat m.value, word32?_eq_some_iff.2 ⟨m, hs, hvalue.symm⟩, ?_⟩
    rw [← UInt32.toNat_inj, toNat_oneBased, hvalue, hn]

end LintReport.Text
