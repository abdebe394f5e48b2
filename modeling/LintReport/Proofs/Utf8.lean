import LintReport.Text.Utf8

/-! Reading undoes encoding: the bytes of a text in UTF-8 are read as that text, and nothing else is
read without an ill-formed piece. The encoding is that of the standard library, whose images are the
byte strings that count as valid UTF-8. Behind a newline, which no damage before it can take in,
reading begins afresh. -/

namespace LintReport

namespace Text.Utf8

/-- The bytes of a text. -/
def encode (s : List Char) : Bytes := s.flatMap String.utf8EncodeChar

theorem toNat_ofNat_of_lt {n : Nat} (h : n < 256) : (UInt8.ofNat n).toNat = n := by
  rw [UInt8.toNat_ofNat']
  exact Nat.mod_eq_of_lt h

theorem lead_one {n : Nat} (h : n < 0x80) :
    lead (UInt8.ofNat n) = (some (some (Char.ofNat n)), .between) := by
  have hn : (UInt8.ofNat n).toNat = n := toNat_ofNat_of_lt (by omega)
  simp [lead, UInt8.lt_iff_toNat_lt, hn, h]

theorem lead_two {n : Nat} (h : n < 32) (h' : 2 ≤ n) :
    lead (UInt8.ofNat (n + 0xC0)) = (none, .within 0x80 0xBF 0 n) := by decide +revert

/-- The least and the greatest byte that may follow the first byte of three: they keep out what
two bytes can spell, and the surrogates. -/
def secondOfThree (n : Nat) : UInt8 × UInt8 :=
  (if n = 0 then 0xA0 else 0x80, if n = 13 then 0x9F else 0xBF)

theorem lead_three {n : Nat} (h : n < 16) :
    lead (UInt8.ofNat (n + 0xE0)) =
      (none, .within (secondOfThree n).1 (secondOfThree n).2 1 n) := by decide +revert

/-- The least and the greatest byte that may follow the first byte of four: they keep out what
three bytes can spell, and what lies behind the last character. -/
def secondOfFour (n : Nat) : UInt8 × UInt8 :=
  (if n = 0 then 0x90 else 0x80, if n = 4 then 0x8F else 0xBF)

theorem lead_four {n : Nat} (h : n < 5) :
    lead (UInt8.ofNat (n + 0xF0)) =
      (none, .within (secondOfFour n).1 (secondOfFour n).2 2 n) := by decide +revert

theorem piecesFrom_lead {n : Nat} {s : State} {rest : Bytes}
    (h : lead (UInt8.ofNat n) = (none, s)) :
    piecesFrom .between (UInt8.ofNat n :: rest) = piecesFrom s rest := by
  simp [piecesFrom, step, h]

/-- A later byte behind which others are awaited. -/
theorem piecesFrom_tail {low high : UInt8} {left value n : Nat} {rest : Bytes}
    (hlow : low.toNat ≤ n % 64 + 0x80) (hhigh : n % 64 + 0x80 ≤ high.toNat) :
    piecesFrom (.within low high (left + 1) value) (UInt8.ofNat (n % 64 + 0x80) :: rest) =
      piecesFrom (.within 0x80 0xBF left (value * 64 + n % 64)) rest := by
  have hn : (UInt8.ofNat (n % 64 + 0x80)).toNat = n % 64 + 0x80 := toNat_ofNat_of_lt (by omega)
  simp only [piecesFrom, step, UInt8.le_iff_toNat_le, hn]
  simp [hlow, hhigh]

/-- The byte that completes a character. -/
theorem piecesFrom_last {low high : UInt8} {value n : Nat} {rest : Bytes}
    (hlow : low.toNat ≤ n % 64 + 0x80) (hhigh : n % 64 + 0x80 ≤ high.toNat) :
    piecesFrom (.within low high 0 value) (UInt8.ofNat (n % 64 + 0x80) :: rest) =
      some (Char.ofNat (value * 64 + n % 64)) :: piecesFrom .between rest := by
  have hn : (UInt8.ofNat (n % 64 + 0x80)).toNat = n % 64 + 0x80 := toNat_ofNat_of_lt (by omega)
  simp only [piecesFrom, step, UInt8.le_iff_toNat_le, hn]
  simp [hlow, hhigh]

/-- A byte of the range that is open to the last byte of every longer character. -/
theorem tail_bounds (n : Nat) :
    (0x80 : UInt8).toNat ≤ n % 64 + 0x80 ∧ n % 64 + 0x80 ≤ (0xBF : UInt8).toNat := by
  simp only [UInt8.reduceToNat]
  omega

/-- The bytes of a character are read as that character, whatever follows them. -/
theorem piecesFrom_encodeChar (c : Char) (rest : Bytes) :
    piecesFrom .between (String.utf8EncodeChar c ++ rest) = some c :: piecesFrom .between rest := by
  have hv : c.val.toNat < 0xD800 ∨ 0xDFFF < c.val.toNat ∧ c.val.toNat < 0x110000 := c.valid
  have hc : Char.ofNat c.val.toNat = c := Char.ofNat_toNat c
  unfold String.utf8EncodeChar
  generalize c.val.toNat = v at hv hc
  simp only
  split
  · simp [piecesFrom, step, lead_one (show v < 0x80 by omega), hc]
  split
  · rw [Nat.mod_eq_of_lt (show v / 64 < 0x20 by omega), List.cons_append, List.cons_append,
      piecesFrom_lead (lead_two (by omega) (by omega)),
      piecesFrom_last (tail_bounds v).1 (tail_bounds v).2,
      show v / 64 * 64 + v % 64 = v by omega, hc, List.nil_append]
  split
  · have hsecond : (secondOfThree (v / 4096)).1.toNat ≤ v / 64 % 64 + 0x80 ∧
        v / 64 % 64 + 0x80 ≤ (secondOfThree (v / 4096)).2.toNat := by
      unfold secondOfThree
      constructor <;> dsimp only <;> split <;> simp only [UInt8.reduceToNat] <;> omega
    rw [Nat.mod_eq_of_lt (show v / 4096 < 0x10 by omega), List.cons_append, List.cons_append,
      List.cons_append, piecesFrom_lead (lead_three (by omega)),
      piecesFrom_tail hsecond.1 hsecond.2, piecesFrom_last (tail_bounds v).1 (tail_bounds v).2,
      show (v / 4096 * 64 + v / 64 % 64) * 64 + v % 64 = v by omega, hc, List.nil_append]
  · have hsecond : (secondOfFour (v / 262144)).1.toNat ≤ v / 4096 % 64 + 0x80 ∧
        v / 4096 % 64 + 0x80 ≤ (secondOfFour (v / 262144)).2.toNat := by
      unfold secondOfFour
      constructor <;> dsimp only <;> split <;> simp only [UInt8.reduceToNat] <;> omega
    rw [Nat.mod_eq_of_lt (show v / 262144 < 8 by omega), List.cons_append, List.cons_append,
      List.cons_append, List.cons_append, piecesFrom_lead (lead_four (by omega)),
      piecesFrom_tail hsecond.1 hsecond.2,
      piecesFrom_tail (tail_bounds (v / 64)).1 (tail_bounds (v / 64)).2,
      piecesFrom_last (tail_bounds v).1 (tail_bounds v).2,
      show ((v / 262144 * 64 + v / 4096 % 64) * 64 + v / 64 % 64) * 64 + v % 64 = v by omega, hc,
      List.nil_append]

theorem pieces_encode (s : List Char) : pieces (encode s) = s.map some := by
  unfold pieces encode
  induction s with
  | nil => rfl
  | cons c s ih => rw [List.flatMap_cons, piecesFrom_encodeChar, ih, List.map_cons]

/-- The bytes of a text are read as that text. -/
@[simp] theorem text?_encode (s : List Char) : text? (encode s) = some s := by
  rw [text?, pieces_encode]
  induction s with
  | nil => rfl
  | cons c s ih => simp [ih]

/-! ### Readings that give up nothing -/

/-- What a byte can begin. -/
theorem lead_cases (b : UInt8) :
    (∃ n < 0x80, b = UInt8.ofNat n) ∨ lead b = (some none, .between) ∨
      (∃ n < 32, 2 ≤ n ∧ b = UInt8.ofNat (n + 0xC0)) ∨
      (∃ n < 16, b = UInt8.ofNat (n + 0xE0)) ∨ ∃ n < 5, b = UInt8.ofNat (n + 0xF0) := by
  have hb (k : Nat) (hk : k ≤ b.toNat) : b = UInt8.ofNat (b.toNat - k + k) := by
    rw [Nat.sub_add_cancel hk, UInt8.ofNat_toNat]
  have hlt : b.toNat < 256 := b.toNat_lt
  by_cases h₁ : b.toNat < 0x80
  · exact .inl ⟨b.toNat, h₁, UInt8.ofNat_toNat.symm⟩
  by_cases h₂ : b.toNat < 0xC2
  · refine .inr (.inl ?_)
    simp only [lead, UInt8.lt_iff_toNat_lt, UInt8.reduceToNat]
    rw [if_neg h₁, if_pos h₂]
  by_cases h₃ : b.toNat < 0xE0
  · exact .inr (.inr (.inl ⟨b.toNat - 0xC0, by omega, by omega, hb 0xC0 (by omega)⟩))
  by_cases h₄ : b.toNat < 0xF0
  · exact .inr (.inr (.inr (.inl ⟨b.toNat - 0xE0, by omega, hb 0xE0 (by omega)⟩)))
  by_cases h₅ : b.toNat < 0xF5
  · exact .inr (.inr (.inr (.inr ⟨b.toNat - 0xF0, by omega, hb 0xF0 (by omega)⟩)))
  · refine .inr (.inl ?_)
    simp only [lead, UInt8.lt_iff_toNat_lt, ← UInt8.toNat_inj, UInt8.reduceToNat]
    rw [if_neg h₁, if_neg h₂, if_neg h₃, if_neg (by omega), if_neg (by omega), if_neg h₄,
      if_neg (by omega), if_neg (by omega), if_neg (by omega)]

theorem secondOfThree_bounds (n : Nat) :
    0x80 ≤ (secondOfThree n).1 ∧ (secondOfThree n).2 ≤ 0xBF := by
  unfold secondOfThree
  constructor <;> dsimp only <;> split <;> decide

theorem secondOfFour_bounds (n : Nat) :
    0x80 ≤ (secondOfFour n).1 ∧ (secondOfFour n).2 ≤ 0xBF := by
  unfold secondOfFour
  constructor <;> dsimp only <;> split <;> decide

/-- Within a character, the next piece is ill-formed or the next byte is one that the character
goes on with. -/
theorem within_cases {low high : UInt8} (hlow : 0x80 ≤ low) (hhigh : high ≤ 0xBF)
    (left value : Nat) (bytes : Bytes) :
    (∃ ps, piecesFrom (.within low high left value) bytes = none :: ps) ∨
      ∃ n rest, bytes = UInt8.ofNat (n % 64 + 0x80) :: rest ∧
        low.toNat ≤ n % 64 + 0x80 ∧ n % 64 + 0x80 ≤ high.toNat := by
  cases bytes with
  | nil => exact .inl ⟨[], rfl⟩
  | cons b rest =>
    by_cases hb : low ≤ b ∧ b ≤ high
    · have hle : 0x80 ≤ b.toNat := Nat.le_trans hlow hb.1
      have hge : b.toNat ≤ 0xBF := Nat.le_trans hb.2 hhigh
      have hn : (b.toNat - 0x80) % 64 + 0x80 = b.toNat := by omega
      refine .inr ⟨b.toNat - 0x80, rest, ?_, hn.symm ▸ hb.1, hn.symm ▸ hb.2⟩
      rw [hn, UInt8.ofNat_toNat]
    · refine .inl ?_
      rw [piecesFrom, step, if_neg hb]
      exact ⟨_, rfl⟩

/-- Every later byte of a character but the second may be any of the same range. -/
theorem tail_cases (left value : Nat) (bytes : Bytes) :
    (∃ ps, piecesFrom (.within 0x80 0xBF left value) bytes = none :: ps) ∨
      ∃ n rest, bytes = UInt8.ofNat (n % 64 + 0x80) :: rest ∧
        (0x80 : UInt8).toNat ≤ n % 64 + 0x80 ∧ n % 64 + 0x80 ≤ (0xBF : UInt8).toNat :=
  within_cases (UInt8.le_refl 0x80) (UInt8.le_refl 0xBF) left value bytes

theorem toNat_val_ofNat {v : Nat} (h : v < 0xD800 ∨ 0xDFFF < v ∧ v < 0x110000) :
    (Char.ofNat v).val.toNat = v := by
  rw [Char.ofNat, dif_pos (show v.isValidChar from h)]
  rfl

theorem encodeChar_one {n : Nat} (h : n < 0x80) :
    String.utf8EncodeChar (Char.ofNat n) = [UInt8.ofNat n] := by
  unfold String.utf8EncodeChar
  rw [toNat_val_ofNat (by omega)]
  exact if_pos (by omega)

theorem encodeChar_two {n m : Nat} (h : n < 32) (h' : 2 ≤ n) :
    String.utf8EncodeChar (Char.ofNat (n * 64 + m % 64)) =
      [UInt8.ofNat (n + 0xC0), UInt8.ofNat (m % 64 + 0x80)] := by
  have hn : (n * 64 + m % 64) / 64 % 0x20 = n := by omega
  have hm : (n * 64 + m % 64) % 0x40 = m % 64 := by omega
  unfold String.utf8EncodeChar
  rw [toNat_val_ofNat (by omega)]
  simp only [hn, hm]
  rw [if_neg (by omega), if_pos (by omega)]

theorem encodeChar_three {n m k : Nat} (h : n < 16)
    (hlow : (secondOfThree n).1.toNat ≤ m % 64 + 0x80)
    (hhigh : m % 64 + 0x80 ≤ (secondOfThree n).2.toNat) :
    String.utf8EncodeChar (Char.ofNat ((n * 64 + m % 64) * 64 + k % 64)) =
      [UInt8.ofNat (n + 0xE0), UInt8.ofNat (m % 64 + 0x80), UInt8.ofNat (k % 64 + 0x80)] := by
  have hfirst : n = 0 → 0xA0 ≤ m % 64 + 0x80 := by
    rintro rfl
    exact hlow
  have hlast : n = 13 → m % 64 + 0x80 ≤ 0x9F := by
    rintro rfl
    exact hhigh
  have hn : ((n * 64 + m % 64) * 64 + k % 64) / 4096 % 0x10 = n := by omega
  have hm : ((n * 64 + m % 64) * 64 + k % 64) / 64 % 0x40 = m % 64 := by omega
  have hk : ((n * 64 + m % 64) * 64 + k % 64) % 0x40 = k % 64 := by omega
  unfold String.utf8EncodeChar
  rw [toNat_val_ofNat (by omega)]
  simp only [hn, hm, hk]
  rw [if_neg (by omega), if_neg (by omega), if_pos (by omega)]

theorem encodeChar_four {n m k j : Nat} (h : n < 5)
    (hlow : (secondOfFour n).1.toNat ≤ m % 64 + 0x80)
    (hhigh : m % 64 + 0x80 ≤ (secondOfFour n).2.toNat) :
    String.utf8EncodeChar (Char.ofNat (((n * 64 + m % 64) * 64 + k % 64) * 64 + j % 64)) =
      [UInt8.ofNat (n + 0xF0), UInt8.ofNat (m % 64 + 0x80), UInt8.ofNat (k % 64 + 0x80),
        UInt8.ofNat (j % 64 + 0x80)] := by
  have hfirst : n = 0 → 0x90 ≤ m % 64 + 0x80 := by
    rintro rfl
    exact hlow
  have hlast : n = 4 → m % 64 + 0x80 ≤ 0x8F := by
    rintro rfl
    exact hhigh
  have hn : (((n * 64 + m % 64) * 64 + k % 64) * 64 + j % 64) / 262144 % 0x08 = n := by omega
  have hm : (((n * 64 + m % 64) * 64 + k % 64) * 64 + j % 64) / 4096 % 0x40 = m % 64 := by omega
  have hk : (((n * 64 + m % 64) * 64 + k % 64) * 64 + j % 64) / 64 % 0x40 = k % 64 := by omega
  have hj : (((n * 64 + m % 64) * 64 + k % 64) * 64 + j % 64) % 0x40 = j % 64 := by omega
  unfold String.utf8EncodeChar
  rw [toNat_val_ofNat (by omega)]
  simp only [hn, hm, hk, hj]
  rw [if_neg (by omega), if_neg (by omega), if_neg (by omega)]

/-- Bytes begin with those of a character, or with an ill-formed piece, unless there are none. -/
theorem pieces_cases (bytes : Bytes) :
    bytes = [] ∨ (∃ ps, pieces bytes = none :: ps) ∨
      ∃ c rest, bytes = String.utf8EncodeChar c ++ rest := by
  unfold pieces
  cases bytes with
  | nil => exact .inl rfl
  | cons b rest =>
    refine .inr ?_
    obtain ⟨n, hn, rfl⟩ | hnone | ⟨n, hn, hn', rfl⟩ | ⟨n, hn, rfl⟩ | ⟨n, hn, rfl⟩ := lead_cases b
    · exact .inr ⟨Char.ofNat n, rest, by rw [encodeChar_one hn]; rfl⟩
    · refine .inl ⟨piecesFrom .between rest, ?_⟩
      rw [piecesFrom, step, hnone]
      rfl
    · rw [piecesFrom_lead (lead_two hn hn')]
      obtain hnone | ⟨m, rest, rfl, -, -⟩ := tail_cases 0 n rest
      · exact .inl hnone
      · exact .inr ⟨_, rest, by rw [encodeChar_two hn hn']; rfl⟩
    · have hbounds := secondOfThree_bounds n
      rw [piecesFrom_lead (lead_three hn)]
      obtain hnone | ⟨m, rest, rfl, hlow, hhigh⟩ := within_cases hbounds.1 hbounds.2 1 n rest
      · exact .inl hnone
      rw [piecesFrom_tail hlow hhigh]
      obtain hnone | ⟨k, rest, rfl, -, -⟩ := tail_cases 0 (n * 64 + m % 64) rest
      · exact .inl hnone
      · exact .inr ⟨_, rest, by rw [encodeChar_three hn hlow hhigh]; rfl⟩
    · have hbounds := secondOfFour_bounds n
      rw [piecesFrom_lead (lead_four hn)]
      obtain hnone | ⟨m, rest, rfl, hlow, hhigh⟩ := within_cases hbounds.1 hbounds.2 2 n rest
      · exact .inl hnone
      rw [piecesFrom_tail hlow hhigh]
      obtain hnone | ⟨k, rest, rfl, hlow', hhigh'⟩ := tail_cases 1 (n * 64 + m % 64) rest
      · exact .inl hnone
      rw [piecesFrom_tail hlow' hhigh']
      obtain hnone | ⟨j, rest, rfl, -, -⟩ :=
        tail_cases 0 ((n * 64 + m % 64) * 64 + k % 64) rest
      · exact .inl hnone
      · exact .inr ⟨_, rest, by rw [encodeChar_four hn hlow hhigh]; rfl⟩

theorem eq_encode_of_pieces {bytes : Bytes} {s : List Char} (h : pieces bytes = s.map some) :
    bytes = encode s := by
  induction s generalizing bytes with
  | nil =>
    obtain rfl | ⟨ps, hps⟩ | ⟨c, rest, rfl⟩ := pieces_cases bytes
    · rfl
    · cases hps.symm.trans h
    · cases (piecesFrom_encodeChar c rest).symm.trans h
  | cons c s ih =>
    obtain rfl | ⟨ps, hps⟩ | ⟨d, rest, rfl⟩ := pieces_cases bytes
    · cases h
    · cases hps.symm.trans h
    · obtain ⟨hd, hrest⟩ := List.cons.inj ((piecesFrom_encodeChar d rest).symm.trans h)
      cases hd
      rw [ih hrest]
      rfl

theorem eq_map_some_of_mapM {ps : List (Option Char)} {s : List Char} (h : ps.mapM id = some s) :
    ps = s.map some := by
  induction ps generalizing s with
  | nil =>
    cases h
    rfl
  | cons p ps ih =>
    rw [List.mapM_cons] at h
    simp only [bind, Option.bind_eq_some_iff, pure, Option.some.injEq] at h
    obtain ⟨c, rfl, t, ht, rfl⟩ := h
    rw [ih ht]
    rfl

/-- What is read as a text is the encoding of that text. -/
theorem text?_eq_some_iff {bytes : Bytes} {s : List Char} :
    text? bytes = some s ↔ bytes = encode s :=
  ⟨fun h => eq_encode_of_pieces (eq_map_some_of_mapM h), fun h => h ▸ text?_encode s⟩

/-- Valid UTF-8. -/
def IsValid (bytes : Bytes) : Prop := ∃ s, bytes = encode s

theorem text?_eq_none_iff {bytes : Bytes} : text? bytes = none ↔ ¬IsValid bytes := by
  rw [Option.eq_none_iff_forall_ne_some, IsValid, not_exists]
  exact forall_congr' fun s => not_congr text?_eq_some_iff

/-! ### Newlines -/

/-- Whether bytes are whole lines: there are none, or the last one is a newline. -/
def Terminated (bytes : Bytes) : Prop := bytes = [] ∨ bytes.getLast? = some 0x0A

theorem Terminated.cases {bytes : Bytes} (h : Terminated bytes) :
    bytes = [] ∨ ∃ front, bytes = front ++ [0x0A] :=
  h.imp_right List.getLast?_eq_some_iff.1

/-- A state whose character is none of a single byte: no byte below those of longer characters goes
on with it, and what it comes to be is no ASCII character. -/
def State.AwaitsTail : State → Prop
  | .between => True
  | .within low _ left value =>
    0x80 ≤ low ∧ (if left = 0 then 0x80 else 2) ≤ value * 64 + (low.toNat - 0x80)

theorem awaitsTail_lead (b : UInt8) : (lead b).2.AwaitsTail := by
  obtain ⟨n, hn, rfl⟩ | hnone | ⟨n, hn, hn', rfl⟩ | ⟨n, hn, rfl⟩ | ⟨n, hn, rfl⟩ := lead_cases b
  · rw [lead_one hn]
    trivial
  · rw [hnone]
    trivial
  · rw [lead_two hn hn']
    refine ⟨UInt8.le_refl 0x80, ?_⟩
    rw [if_pos rfl]
    omega
  · rw [lead_three hn]
    refine ⟨(secondOfThree_bounds n).1, ?_⟩
    obtain rfl | hpos := Nat.eq_zero_or_pos n
    · decide
    · rw [if_neg (by decide)]
      omega
  · rw [lead_four hn]
    refine ⟨(secondOfFour_bounds n).1, ?_⟩
    obtain rfl | hpos := Nat.eq_zero_or_pos n
    · decide
    · rw [if_neg (by decide)]
      omega

theorem awaitsTail_step {s : State} (h : s.AwaitsTail) (b : UInt8) : (step s b).2.AwaitsTail := by
  cases s with
  | between => exact awaitsTail_lead b
  | within low high left value =>
    by_cases hb : low ≤ b ∧ b ≤ high
    · rw [step, if_pos hb]
      cases left with
      | zero => trivial
      | succ left =>
        have hle : low.toNat ≤ b.toNat := hb.1
        have hvalue := h.2
        rw [if_neg (Nat.succ_ne_zero left)] at hvalue
        refine ⟨UInt8.le_refl 0x80, ?_⟩
        split <;> omega
    · rw [step, if_neg hb]
      exact awaitsTail_lead b

/-- A newline ends whatever stands before it, be that an unfinished character, and what follows it
is read as if nothing had been before. -/
theorem piecesFrom_newline {s : State} (h : s.AwaitsTail) (a b : Bytes) :
    piecesFrom s (a ++ 0x0A :: b) = piecesFrom s a ++ some '\n' :: pieces b := by
  induction a generalizing s with
  | nil =>
    cases s with
    | between => rfl
    | within low high left value =>
      have hlow : ¬(low ≤ 0x0A ∧ 0x0A ≤ high) := fun hle =>
        absurd (UInt8.le_trans h.1 hle.1) (by decide)
      simp only [List.nil_append, piecesFrom, step, if_neg hlow]
      rfl
  | cons c a ih =>
    have hrest := ih (awaitsTail_step h c)
    cases s <;> simp only [List.cons_append, piecesFrom, hrest, List.append_assoc]

theorem pieces_newline (a b : Bytes) :
    pieces (a ++ 0x0A :: b) = pieces a ++ some '\n' :: pieces b :=
  piecesFrom_newline (s := .between) trivial a b

theorem lossyText_newline (a b : Bytes) :
    lossyText (a ++ 0x0A :: b) = lossyText a ++ '\n' :: lossyText b := by
  simp [lossyText, pieces_newline]

theorem text?_newline (a b : Bytes) :
    text? (a ++ 0x0A :: b) = (text? a).bind fun s => (text? b).map fun t => s ++ '\n' :: t := by
  simp only [text?, pieces_newline, List.mapM_append, List.mapM_cons, id, bind, pure]
  cases (pieces a).mapM id <;> cases (pieces b).mapM id <;> rfl

theorem ofNat_ne_newline {v : Nat} (h : 0x80 ≤ v) : Char.ofNat v ≠ '\n' := by
  intro heq
  by_cases hvalid : v.isValidChar
  · have hv := congrArg (fun c : Char => c.val.toNat) heq
    rw [toNat_val_ofNat hvalid] at hv
    exact absurd (show v = 10 from hv) (by omega)
  · rw [Char.ofNat, dif_neg hvalid] at heq
    exact absurd heq (by decide)

/-- Only the newline byte is read as a newline. -/
theorem newline_not_mem_step {s : State} (h : s.AwaitsTail) {b : UInt8} (hb : b ≠ 0x0A) :
    some '\n' ∉ (step s b).1 := by
  have hlead : (lead b).1 ≠ some (some '\n') := by
    obtain ⟨n, hn, rfl⟩ | hnone | ⟨n, hn, hn', rfl⟩ | ⟨n, hn, rfl⟩ | ⟨n, hn, rfl⟩ := lead_cases b
    · rw [lead_one hn]
      intro heq
      have hchar : Char.ofNat n = '\n' := Option.some.inj (Option.some.inj heq)
      have hn' := congrArg (fun c : Char => c.val.toNat) hchar
      rw [toNat_val_ofNat (by omega)] at hn'
      exact hb (congrArg UInt8.ofNat hn')
    · simp [hnone]
    · rw [lead_two hn hn']
      exact Option.some_ne_none _ ∘ Eq.symm
    · rw [lead_three hn]
      exact Option.some_ne_none _ ∘ Eq.symm
    · rw [lead_four hn]
      exact Option.some_ne_none _ ∘ Eq.symm
  cases s with
  | between => simpa [step] using hlead
  | within low high left value =>
    by_cases hrange : low ≤ b ∧ b ≤ high
    · have hle : low.toNat ≤ b.toNat := hrange.1
      have hvalue := h.2
      rw [step, if_pos hrange]
      cases left with
      | zero =>
        rw [if_pos rfl] at hvalue
        have hne := ofNat_ne_newline (v := value * 64 + (b.toNat - 0x80)) (by omega)
        simpa using hne.symm
      | succ left => exact List.not_mem_nil
    · rw [step, if_neg hrange]
      simpa using hlead

theorem newline_not_mem_piecesFrom {s : State} (h : s.AwaitsTail) {bytes : Bytes}
    (hbytes : 0x0A ∉ bytes) : some '\n' ∉ piecesFrom s bytes := by
  induction bytes generalizing s with
  | nil => cases s <;> simp [piecesFrom]
  | cons b bytes ih =>
    obtain ⟨hb, hrest⟩ := not_or.1 (mt List.mem_cons.2 hbytes)
    have hstep := newline_not_mem_step h (Ne.symm hb)
    have hlater := ih (awaitsTail_step h b) hrest
    cases s <;> exact fun hmem => (List.mem_append.1 hmem).elim hstep hlater

theorem newline_not_mem_lossyText {bytes : Bytes} (h : 0x0A ∉ bytes) : '\n' ∉ lossyText bytes := by
  intro hmem
  obtain ⟨piece, hpiece, hchar⟩ := List.mem_map.1 hmem
  cases piece with
  | none => exact absurd hchar (by decide)
  | some c => exact newline_not_mem_piecesFrom (s := .between) trivial h (hchar ▸ hpiece)

end Text.Utf8

@[simp] theorem Decoding.read_strict_encode (s : List Char) :
    Decoding.strict.read (Text.Utf8.encode s) = s := by
  simp [Decoding.read]

/-- Valid output is read alike in either way. -/
theorem Decoding.read_encode (d : Decoding) (s : List Char) : d.read (Text.Utf8.encode s) = s := by
  cases d with
  | strict => exact read_strict_encode s
  | lossy => simp [read, Text.Utf8.lossyText, Text.Utf8.pieces_encode, Function.comp_def]

end LintReport
