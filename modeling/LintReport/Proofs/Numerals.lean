import LintReport.Proofs.Fields
import LintReport.Text.Numeral

/-! Printed numbers, read back. A number is printed as digits alone, so no sign, separator or
white space occurs in it. -/

namespace LintReport.Text

theorem isDigit_of_mem_decimal {n : Nat} {c : Char} (h : c ∈ decimal n) : c.isDigit = true :=
  Nat.isDigit_of_mem_toDigits (by decide) (by decide) h

theorem not_mem_decimal {c : Char} (hc : c.isDigit = false) (n : Nat) : c ∉ decimal n := by
  intro h
  rw [isDigit_of_mem_decimal h] at hc
  cases hc

theorem decimal_ne_nil (n : Nat) : decimal n ≠ [] := Nat.toDigits_ne_nil

/-- Only zero is printed with a zero in front. -/
theorem eq_nil_of_decimal_eq {n : Nat} {ds : List Char} (h : decimal n = '0' :: ds) : ds = [] := by
  have hdigit : ∀ m < 10, 0 < m → m.digitChar ≠ '0' := by decide
  have hfront : ∀ n : Nat, 0 < n → ∀ s, Nat.toDigits 10 n ≠ '0' :: s := by
    intro n
    induction n using Nat.strongRecOn with
    | ind n ih =>
      intro hn s hs
      by_cases hlt : n < 10
      · rw [Nat.toDigits_of_lt_base hlt, List.cons.injEq] at hs
        exact hdigit n hlt hn hs.1
      · rw [Nat.toDigits_of_base_le (by decide) (by omega)] at hs
        obtain ⟨c, front, hc⟩ := List.exists_cons_of_ne_nil
          (Nat.toDigits_ne_nil (n := n / 10) (b := 10))
        rw [hc, List.cons_append, List.cons.injEq] at hs
        exact ih (n / 10) (by omega) (by omega) front (hc.trans (by rw [hs.1]))
  rcases Nat.eq_zero_or_pos n with rfl | hn
  · rw [decimal, Nat.toDigits_zero, List.cons.injEq] at h
    exact h.2.symm
  · exact absurd h (hfront n hn ds)

theorem isBlank_of_isDigit {c : Char} (h : c.isDigit = true) : isBlank c = false := by
  simp only [Char.isDigit, Bool.and_eq_true, decide_eq_true_eq, ge_iff_le,
    UInt32.le_iff_toNat_le] at h
  have h₀ : 48 ≤ c.val.toNat := h.1
  have h₉ : c.val.toNat ≤ 57 := h.2
  simp only [isBlank, Bool.or_eq_false_iff, Bool.and_eq_false_iff, decide_eq_false_iff_not,
    beq_eq_false_iff_ne, ne_eq, UInt32.le_iff_toNat_le, ← UInt32.toNat_inj, UInt32.reduceToNat]
  omega

theorem digits?_decimal (n : Nat) : digits? (decimal n) = some n := by
  have hall : (decimal n).all Char.isDigit = true := by
    rw [List.all_eq_true]
    intro c hc
    exact isDigit_of_mem_decimal hc
  rw [digits?, if_pos ⟨decimal_ne_nil n, hall⟩]
  exact congrArg some Nat.ofDigitChars_ten_toDigits

/-- Digits behind a number only make it greater. -/
theorem le_ofDigitChars (ds : List Char) (n : Nat) : n ≤ Nat.ofDigitChars 10 ds n := by
  rw [Nat.ofDigitChars_eq_ofDigitChars_zero]
  exact Nat.le_add_right_of_le (Nat.le_mul_of_pos_left n (Nat.pow_pos (by decide)))

/-- Reading digit by digit ends with the value of all digits if 32 bits hold that value. If they do
not, then it is given up on the way, and the digits that follow do not matter. -/
theorem foldlM_appendDigit? {ds : List Char} (hds : ∀ c ∈ ds, c.isDigit = true) (n : UInt32) :
    ds.foldlM appendDigit? n =
      if Nat.ofDigitChars 10 ds n.toNat < UInt32.size then
        some (UInt32.ofNat (Nat.ofDigitChars 10 ds n.toNat))
      else none := by
  induction ds generalizing n with
  | nil => rw [Nat.ofDigitChars_nil, if_pos n.toNat_lt, UInt32.ofNat_toNat]; rfl
  | cons c ds ih =>
    obtain ⟨hc, hds⟩ := List.forall_mem_cons.1 hds
    rw [List.foldlM_cons, appendDigit?, Nat.ofDigitChars_cons]
    by_cases hfits : 10 * n.toNat + (c.toNat - '0'.toNat) < UInt32.size
    · rw [if_pos ⟨hc, hfits⟩]
      have hvalue := UInt32.toNat_ofNat_of_lt' hfits
      exact (ih hds _).trans (by rw [hvalue])
    · have hle := le_ofDigitChars ds (10 * n.toNat + (c.toNat - '0'.toNat))
      rw [if_neg (fun h => hfits h.2), if_neg (by omega)]
      rfl

/-- What is read digit by digit is digits. -/
theorem isDigit_of_foldlM {ds : List Char} {n m : UInt32}
    (h : ds.foldlM appendDigit? n = some m) : ∀ c ∈ ds, c.isDigit = true := by
  induction ds generalizing n with
  | nil => exact List.forall_mem_nil _
  | cons c ds ih =>
    rw [List.foldlM_cons, Option.bind_eq_bind, Option.bind_eq_some_iff] at h
    obtain ⟨n', hc, hds⟩ := h
    rw [appendDigit?, Option.ite_none_right_eq_some] at hc
    exact List.forall_mem_cons.2 ⟨hc.1.1, ih hds⟩

theorem word32?_eq (s : List Char) :
    word32? s = (digits? (withoutPlus s)).bind fun value =>
      if value < UInt32.size then some (UInt32.ofNat value) else none := by
  unfold word32? digits?
  split
  · rename_i h
    rw [h]
    rfl
  · rename_i hne
    by_cases hds : (withoutPlus s).all Char.isDigit = true
    · rw [if_pos ⟨hne, hds⟩, foldlM_appendDigit? (List.all_eq_true.1 hds)]
      rfl
    · rw [if_neg (fun h => hds h.2), Option.bind_none, Option.eq_none_iff_forall_ne_some]
      intro n hn
      exact hds (List.all_eq_true.2 (isDigit_of_foldlM hn))

theorem withoutPlus_eq_self {s : List Char} (h : '+' ∉ s) : withoutPlus s = s := by
  unfold withoutPlus
  split
  · exact absurd List.mem_cons_self h
  · rfl

/-- A printed number is read back if it fits, and is refused otherwise. -/
theorem word32?_decimal (n : Nat) :
    word32? (decimal n) = if n < UInt32.size then some (UInt32.ofNat n) else none := by
  rw [word32?_eq, withoutPlus_eq_self (not_mem_decimal rfl n), digits?_decimal]
  rfl

theorem toNat_oneBased (n : UInt32) : (oneBased n).toNat = max n.toNat 1 := by
  show (if n ≤ 1 then 1 else n).toNat = max n.toNat 1
  split
  · rename_i h
    exact (Nat.max_eq_right (UInt32.le_iff_toNat_le.1 h)).symm
  · rename_i h
    exact (Nat.max_eq_left (Nat.le_of_not_le fun hle => h (UInt32.le_iff_toNat_le.2 hle))).symm

/-- Positions count from one. -/
theorem one_le_oneBased (n : UInt32) : 1 ≤ (oneBased n).toNat := by
  rw [toNat_oneBased]
  exact Nat.le_max_right _ _

theorem one_le_of_position? {s : List Char} {n : UInt32} (h : position? s = some n) :
    1 ≤ n.toNat := by
  obtain ⟨m, -, rfl⟩ := Option.map_eq_some_iff.1 h
  exact one_le_oneBased m

theorem oneBased_eq_self {n : UInt32} (h : n ≠ 0) : oneBased n = n := by
  have hne : n.toNat ≠ 0 := fun e => h (UInt32.toNat_inj.1 e)
  rw [← UInt32.toNat_inj, toNat_oneBased]
  omega

@[simp] theorem word32?_decimal_toNat (n : UInt32) : word32? (decimal n.toNat) = some n := by
  rw [word32?_decimal, if_pos n.toNat_lt, UInt32.ofNat_toNat]

/-- A printed position is read back, whether or not white space is in front of it. -/
theorem position?_append_decimal {t : List Char} (ht : ∀ c ∈ t, isBlank c = true) {n : UInt32}
    (hn : n ≠ 0) : position? (t ++ decimal n.toNat) = some n := by
  have hword : ∀ c ∈ decimal n.toNat, isBlank c = false := fun c hc =>
    isBlank_of_isDigit (isDigit_of_mem_decimal hc)
  rw [position?, trim_blank_append ht, trim_eq_self hword, word32?_decimal_toNat, Option.map_some,
    oneBased_eq_self hn]

end LintReport.Text
