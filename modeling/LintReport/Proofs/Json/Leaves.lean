import LintReport.Json.Reader
import LintReport.Json.Writer
import LintReport.Proofs.Numerals

/-! Strings and numbers as they are written in JSON. Escaped text is read back character by
character, whatever text it is; and a printed number ends where no character follows that could go
on with it. -/

namespace LintReport

namespace Json

open Text (decimal)

/-! ### Strings -/

theorem codeUnit?_control {n : Nat} (h : n < 32) :
    codeUnit? '0' '0' (Text.hexDigit (n / 16)) (Text.hexDigit (n % 16)) = some n := by
  decide +revert

theorem lt_of_isControl {c : Char} (h : isControl c = true) : c.toNat < 32 := by
  simpa [isControl, UInt32.lt_iff_toNat_lt] using h

/-- A character as it stands in a written string: by itself, behind a backslash, or as a code
unit. -/
theorem escapeChar_cases (c : Char) :
    (escapeChar c = [c] ∧ c ≠ '"' ∧ c ≠ '\\' ∧ isControl c = false) ∨
      (∃ d, escapeChar c = ['\\', d] ∧ d ≠ 'u' ∧ shortEscape? d = some c) ∨
      ∃ x y, escapeChar c = ['\\', 'u', '0', '0', x, y] ∧ codeUnit? '0' '0' x y = some c.toNat ∧
        c.toNat < 32 := by
  unfold escapeChar
  split
  · exact .inr (.inl ⟨'"', rfl, by decide, rfl⟩)
  · exact .inr (.inl ⟨'\\', rfl, by decide, rfl⟩)
  · exact .inr (.inl ⟨'b', rfl, by decide, rfl⟩)
  · exact .inr (.inl ⟨'f', rfl, by decide, rfl⟩)
  · exact .inr (.inl ⟨'n', rfl, by decide, rfl⟩)
  · exact .inr (.inl ⟨'r', rfl, by decide, rfl⟩)
  · exact .inr (.inl ⟨'t', rfl, by decide, rfl⟩)
  · rename_i hquote hbackslash _ _ _ _ _
    split
    · rename_i hcontrol
      have hlt := lt_of_isControl hcontrol
      exact .inr (.inr ⟨_, _, rfl, codeUnit?_control hlt, hlt⟩)
    · rename_i hcontrol
      exact .inl ⟨rfl, hquote, hbackslash, by simpa using hcontrol⟩

theorem takeString_escapeChar (c : Char) (s : List Char) :
    takeString (escapeChar c ++ s) =
      (takeString s).map fun (inside, rest) => (escapeChar c ++ inside, rest) := by
  rcases escapeChar_cases c with ⟨h, hquote, hbackslash, hcontrol⟩ | ⟨d, h, hd, hshort⟩ |
    ⟨x, y, h, hunit, -⟩
  · rw [h, List.singleton_append, takeString.eq_5 _ _ hquote (by simp [hbackslash])
      (by simp [hbackslash]), hcontrol]
    rfl
  · rw [h, List.cons_append, List.singleton_append, takeString.eq_4 _ _ (by simp [hd]), hshort]
    rfl
  · rw [h, List.cons_append, List.cons_append, List.cons_append, List.cons_append,
      List.cons_append, List.singleton_append, takeString, hunit]
    rfl

/-- A written string is taken up to its closing quote. -/
theorem takeString_escape (s rest : List Char) :
    takeString (escape s ++ '"' :: rest) = some (escape s, rest) := by
  induction s with
  | nil => simp [escape, takeString]
  | cons c s ih =>
    have hcons : escape (c :: s) = escapeChar c ++ escape s := List.flatMap_cons
    rw [hcons, List.append_assoc, takeString_escapeChar, ih]
    rfl

theorem ofUnits?_control {n : Nat} (h : n < 32) (next : Option Nat) :
    ofUnits? n next = some (Char.ofNat n, false) := by
  unfold ofUnits?
  rw [if_pos (.inl (by omega))]

/-- A control character stands alone: what follows it is not taken for the other half of a pair. -/
theorem unescape?_unit {n : Nat} (hn : n < 32) {a b c d : Char} (h : codeUnit? a b c d = some n)
    (s : List Char) :
    unescape? ('\\' :: 'u' :: a :: b :: c :: d :: s) = (unescape? s).map (Char.ofNat n :: ·) := by
  by_cases hnext : ∃ e f g h t, s = '\\' :: 'u' :: e :: f :: g :: h :: t
  · obtain ⟨e, f, g, h', t, rfl⟩ := hnext
    rw [unescape?.eq_2, h]
    simp only [Option.bind_eq_bind, Option.bind_some, ofUnits?_control hn, Bool.false_eq_true,
      if_false]
    exact Option.map_eq_bind.symm
  · rw [unescape?.eq_3 _ _ _ _ _ fun e f g h' t heq => hnext ⟨e, f, g, h', t, heq⟩, h]
    simp only [Option.bind_eq_bind, Option.bind_some, ofUnits?_control hn]
    exact Option.map_eq_bind.symm

theorem unescape?_escapeChar (c : Char) (s : List Char) :
    unescape? (escapeChar c ++ s) = (unescape? s).map (c :: ·) := by
  rcases escapeChar_cases c with ⟨h, hquote, hbackslash, hcontrol⟩ | ⟨d, h, hd, hshort⟩ |
    ⟨x, y, h, hunit, hlt⟩
  · rw [h, List.singleton_append, unescape?.eq_5 _ _ (by simp [hbackslash]) (by simp [hbackslash])
      (by simp [hbackslash]), if_neg (by simp [hquote, hbackslash, hcontrol])]
    exact Option.map_eq_bind.symm
  · rw [h, List.cons_append, List.singleton_append,
      unescape?.eq_4 _ _ (by simp [hd]) (by simp [hd]), hshort]
    exact Option.map_eq_bind.symm
  · rw [h, List.cons_append, List.cons_append, List.cons_append, List.cons_append,
      List.cons_append, List.singleton_append, unescape?_unit hlt hunit, Char.ofNat_toNat]

theorem unescape?_escape (s : List Char) : unescape? (escape s) = some s := by
  induction s with
  | nil => rfl
  | cons c s ih =>
    have hcons : escape (c :: s) = escapeChar c ++ escape s := List.flatMap_cons
    rw [hcons, unescape?_escapeChar, ih]
    rfl

@[simp] theorem text?_ofString (s : String) : (ofString s).text? = some s := by
  rw [ofString, text?, unescape?_escape, Option.map_some, String.ofList_toList]

@[simp] theorem word32?_ofNat (n : UInt32) : (ofNat n.toNat).word32? = some n := by
  rw [ofNat, word32?, Text.digits?_decimal, Option.bind_eq_bind, Option.bind_some,
    if_pos n.toNat_lt, UInt32.ofNat_toNat]

/-! ### Numbers -/

/-- A text that does not go on with a number before it. -/
def Ends (rest : List Char) : Prop :=
  ∀ c ∈ rest.head?, c.isDigit = false ∧ c ≠ '.' ∧ c ≠ 'e' ∧ c ≠ 'E'

theorem ends_cons {c : Char} {s : List Char} :
    Ends (c :: s) ↔ c.isDigit = false ∧ c ≠ '.' ∧ c ≠ 'e' ∧ c ≠ 'E' := by
  simp [Ends]

theorem takeDigits_append {ds rest : List Char} (hne : ds ≠ []) (hds : ∀ c ∈ ds, c.isDigit = true)
    (hrest : Ends rest) : takeDigits (ds ++ rest) = some (ds, rest) := by
  have htake : rest.takeWhile Char.isDigit = [] ∧ rest.dropWhile Char.isDigit = rest := by
    cases rest with
    | nil => exact ⟨rfl, rfl⟩
    | cons c s => simp [(ends_cons.1 hrest).1]
  obtain ⟨d, ds, rfl⟩ := List.exists_cons_of_ne_nil hne
  rw [takeDigits, List.takeWhile_append_of_pos hds, List.dropWhile_append_of_pos hds, htake.1,
    htake.2, List.append_nil]

theorem takeInteger_decimal (n : Nat) {rest : List Char} (hrest : Ends rest) :
    takeInteger (decimal n ++ rest) = some (decimal n, rest) := by
  have hdigits := takeDigits_append (Text.decimal_ne_nil n)
    (fun c hc => Text.isDigit_of_mem_decimal hc) hrest
  cases h : decimal n with
  | nil => exact absurd h (Text.decimal_ne_nil n)
  | cons d ds =>
    rw [h] at hdigits
    -- The reader takes no digit behind a zero, and there is none to take.
    by_cases hzero : d = '0'
    · subst hzero
      rw [Text.eq_nil_of_decimal_eq h]
      rfl
    · rw [List.cons_append, takeInteger.eq_2 _ (by simp [hzero]), ← List.cons_append, hdigits]

/-- A printed number is taken whole. -/
theorem takeNumber_decimal (n : Nat) {rest : List Char} (hrest : Ends rest) :
    takeNumber (decimal n ++ rest) = some (decimal n, rest) := by
  have hinteger := takeInteger_decimal n hrest
  have hfraction : takeFraction rest = some ([], rest) := by
    cases rest with
    | nil => rfl
    | cons c s => exact takeFraction.eq_2 _ (by simp [(ends_cons.1 hrest).2.1])
  have hexponent : takeExponent rest = some ([], rest) := by
    cases rest with
    | nil => rfl
    | cons c s => simp [takeExponent, ends_cons.1 hrest]
  have hsign : (decimal n).head? ≠ some '-' := by
    intro h
    exact Text.not_mem_decimal rfl n (List.mem_of_mem_head? h)
  cases h : decimal n with
  | nil => exact absurd h (Text.decimal_ne_nil n)
  | cons d ds =>
    rw [h, List.cons_append] at hinteger
    rw [h, List.head?_cons, ne_eq, Option.some.injEq] at hsign
    rw [List.cons_append]
    simp only [takeNumber]
    split
    · rename_i hs
      exact absurd (List.cons.inj hs).1 hsign
    · simp [hinteger, hfraction, hexponent]

end Json

end LintReport
