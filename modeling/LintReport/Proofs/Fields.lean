import LintReport.Text.Field

/-! Fields of a line, read back from between their separators. A field must be free of the
separator; what stands behind the separator may be anything. -/

namespace LintReport.Text

theorem cut?_append {c : Char} {a : List Char} (h : c ∉ a) (s : List Char) :
    cut? c (a ++ c :: s) = some (a, s) := cut?_eq_some_iff.2 ⟨rfl, h⟩

/-- A text without the separator passes the test for it as a whole. -/
theorem forall_ne_of_not_mem {c : Char} {a : List Char} (h : c ∉ a) :
    ∀ d ∈ a, decide (d ≠ c) = true := by
  intro d hd
  simpa using fun e : d = c => h (e ▸ hd)

theorem before_append {c : Char} {a : List Char} (h : c ∉ a) (s : List Char) :
    before c (a ++ c :: s) = a := by
  rw [before, List.takeWhile_append_of_pos (forall_ne_of_not_mem h)]
  simp

theorem before_eq_self {c : Char} {a : List Char} (h : c ∉ a) : before c a = a := by
  have happend := @List.takeWhile_append_of_pos _ _ _ [] (forall_ne_of_not_mem h)
  rwa [List.append_nil, List.takeWhile_nil, List.append_nil] at happend

theorem splitWhere_eq_splitOnP (p : Char → Bool) (s : List Char) : splitWhere p s = s.splitOnP p := by
  induction s with
  | nil => rfl
  | cons c s ih =>
    rw [splitWhere, ih, List.splitOnP_cons_eq_if_modifyHead]
    have hne := List.splitOnP_ne_nil p s
    split
    · rfl
    · cases h : s.splitOnP p with
      | nil => exact absurd h hne
      | cons w ws => rfl

theorem not_mem_intercalate {c d : Char} (hd : c ≠ d) {ls : List (List Char)}
    (h : ∀ l ∈ ls, c ∉ l) : c ∉ [d].intercalate ls := by
  induction ls with
  | nil => exact List.not_mem_nil
  | cons l ls ih =>
    obtain ⟨hl, hls⟩ := List.forall_mem_cons.1 h
    cases ls with
    | nil => simpa using hl
    | cons m ls =>
      rw [List.intercalate_cons_cons]
      simpa [hl, hd] using ih hls

/-! ### Parts of a text -/

theorem trim_sublist (s : List Char) : (trim s).Sublist s := by
  have hend : ((trimStart s).reverse.dropWhile isBlank).reverse.Sublist
      (trimStart s).reverse.reverse := (List.dropWhile_sublist _).reverse
  rw [List.reverse_reverse] at hend
  exact hend.trans (List.dropWhile_sublist _)

/-- Trimming takes away white space only. -/
theorem count_trim {c : Char} (hc : isBlank c = false) (s : List Char) :
    (trim s).count c = s.count c := by
  have hdrop (t : List Char) : (t.dropWhile isBlank).count c = t.count c := by
    have htake : (t.takeWhile isBlank).count c = 0 := by
      rw [List.count_eq_zero]
      intro hmem
      rw [List.all_eq_true.1 List.all_takeWhile c hmem] at hc
      cases hc
    have hsplit := congrArg (List.count c) (List.takeWhile_append_dropWhile (p := isBlank) (l := t))
    rw [List.count_append, htake, Nat.zero_add] at hsplit
    exact hsplit
  rw [trim, trimEnd, List.count_reverse, hdrop, List.count_reverse, trimStart, hdrop]

theorem afterLast_sublist (c : Char) (s : List Char) : (afterLast c s).Sublist s := by
  have h : (s.reverse.takeWhile (· ≠ c)).reverse.Sublist s.reverse.reverse :=
    (List.takeWhile_sublist _).reverse
  rwa [List.reverse_reverse] at h

theorem afterLast_eq_self_iff {c : Char} {s : List Char} : afterLast c s = s ↔ c ∉ s := by
  constructor
  · intro h hmem
    rw [← h, afterLast, List.mem_reverse] at hmem
    simpa using List.all_eq_true.1 List.all_takeWhile c hmem
  · intro h
    have htake : s.reverse.takeWhile (· ≠ c) = s.reverse :=
      before_eq_self fun hmem => h (List.mem_reverse.1 hmem)
    rw [afterLast, htake, List.reverse_reverse]

/-- What stands in front of a separator does not matter. -/
theorem afterLast_append (c : Char) (a s : List Char) : afterLast c (a ++ c :: s) = afterLast c s := by
  rw [afterLast, afterLast, List.reverse_append, List.reverse_cons, List.append_assoc,
    List.singleton_append, List.takeWhile_append]
  split
  · rename_i e
    have htake := (List.takeWhile_sublist (· ≠ c) (l := s.reverse)).eq_of_length e
    rw [htake, List.takeWhile_cons_of_neg (by simp), List.append_nil]
  · rfl

theorem leadingWord_sublist (s : List Char) : (leadingWord s).Sublist s := List.takeWhile_sublist _

/-! ### Words -/

theorem leadingWord_append {a : List Char} (h : ∀ d ∈ a, isBlank d = false) (s : List Char) :
    leadingWord (a ++ s) = a ++ leadingWord s := by
  unfold leadingWord
  exact List.takeWhile_append_of_pos fun d hd => by simp [h d hd]

/-- A text that is empty or begins with white space has an empty leading word. -/
theorem leadingWord_eq_nil {s : List Char} (h : ∀ c ∈ s.head?, isBlank c = true) :
    leadingWord s = [] := by
  cases s with
  | nil => rfl
  | cons c s => simp [leadingWord, h c rfl]

theorem isBlank_of_mem_leadingWord {c : Char} {s : List Char} (h : c ∈ leadingWord s) :
    isBlank c = false := by
  simpa using List.all_eq_true.1 List.all_takeWhile c h

/-- White space at the end of a text does not lengthen its leading word. -/
theorem leadingWord_append_blank (s : List Char) {t : List Char} (h : ∀ c ∈ t, isBlank c = true) :
    leadingWord (s ++ t) = leadingWord s := by
  induction s with
  | nil => exact leadingWord_eq_nil fun c hc => h c (List.mem_of_mem_head? hc)
  | cons c s ih =>
    unfold leadingWord at ih ⊢
    rw [List.cons_append, List.takeWhile_cons, List.takeWhile_cons, ih]

/-- A text with white space in it has its whole leading word before that. -/
theorem leadingWord_append_of_mem {a : List Char} {c : Char} (hc : c ∈ a) (h : isBlank c = true)
    (s : List Char) : leadingWord (a ++ s) = leadingWord a := by
  have hne : (a.takeWhile (!isBlank ·)).length ≠ a.length := by
    intro e
    have hall := (List.takeWhile_sublist (!isBlank ·) (l := a)).eq_of_length e
    have hmem : c ∈ leadingWord a := by rwa [leadingWord, hall]
    rw [isBlank_of_mem_leadingWord hmem] at h
    cases h
  rw [leadingWord, leadingWord, List.takeWhile_append, if_neg hne]

theorem words_blank_append {t : List Char} (h : ∀ c ∈ t, isBlank c = true) (s : List Char) :
    words (t ++ s) = words s := by
  induction t with
  | nil => rfl
  | cons c t ih =>
    obtain ⟨hc, ht⟩ := List.forall_mem_cons.1 h
    rw [List.cons_append, words, splitWhere, if_pos hc, List.filter_cons_of_neg (by decide)]
    exact ih ht

/-- A word at the end of the text, or in front of white space, is the first word. -/
theorem words_word_append {w : List Char} (hne : w ≠ []) (hw : ∀ c ∈ w, isBlank c = false)
    {s : List Char} (hs : ∀ c ∈ s.head?, isBlank c = true) : words (w ++ s) = w :: words s := by
  have hfilter (ws : List (List Char)) :
      (w :: ws).filter (!·.isEmpty) = w :: ws.filter (!·.isEmpty) :=
    List.filter_cons_of_pos (by simpa using hne)
  cases s with
  | nil =>
    rw [List.append_nil, words, splitWhere_eq_splitOnP, List.splitOnP_eq_singleton hw, hfilter]
    rfl
  | cons c s =>
    have hc := hs c rfl
    have hrest : words (c :: s) = words s := words_blank_append (List.forall_mem_singleton.2 hc) s
    rw [hrest, words, splitWhere_eq_splitOnP, List.splitOnP_append_cons_of_forall_mem hw c hc,
      hfilter, words, splitWhere_eq_splitOnP]

theorem leadingWord_ne_nil {c : Char} (hc : isBlank c = false) (s : List Char) :
    leadingWord (c :: s) ≠ [] := by simp [leadingWord, hc]

/-- Behind the leading word there is nothing, or white space. -/
theorem isBlank_of_head?_dropWhile (s : List Char) :
    ∀ c ∈ (s.dropWhile (!isBlank ·)).head?, isBlank c = true := by
  intro c hc
  have hnot := List.head?_dropWhile_not (!isBlank ·) s
  rw [hc] at hnot
  simpa using hnot

theorem words_cons {c : Char} (hc : isBlank c = false) (s : List Char) :
    words (c :: s) = leadingWord (c :: s) :: words ((c :: s).dropWhile (!isBlank ·)) := by
  have h := words_word_append (leadingWord_ne_nil hc s) (fun d => isBlank_of_mem_leadingWord)
    (isBlank_of_head?_dropWhile (c :: s))
  rwa [leadingWord, List.takeWhile_append_dropWhile] at h

/-- The first word of a text stands behind white space, and what is behind it has the others. -/
theorem words_eq_cons_iff {s w : List Char} {ws : List (List Char)} :
    words s = w :: ws ↔ ∃ margin behind, s = margin ++ (w ++ behind) ∧
      (∀ c ∈ margin, isBlank c = true) ∧ w ≠ [] ∧ (∀ c ∈ w, isBlank c = false) ∧
      (∀ c ∈ behind.head?, isBlank c = true) ∧ words behind = ws := by
  constructor
  · intro h
    induction s with
    | nil => cases h
    | cons c s ih =>
      cases hc : isBlank c with
      | true =>
        have hrest : words (c :: s) = words s :=
          words_blank_append (List.forall_mem_singleton.2 hc) s
        obtain ⟨margin, behind, rfl, hmargin, hw⟩ := ih (hrest.symm.trans h)
        exact ⟨c :: margin, behind, rfl, List.forall_mem_cons.2 ⟨hc, hmargin⟩, hw⟩
      | false =>
        rw [words_cons hc] at h
        obtain ⟨rfl, hbehind⟩ := List.cons.inj h
        exact ⟨[], _, List.takeWhile_append_dropWhile.symm, List.forall_mem_nil _,
          leadingWord_ne_nil hc s, fun d => isBlank_of_mem_leadingWord,
          isBlank_of_head?_dropWhile (c :: s), hbehind⟩
  · rintro ⟨margin, behind, rfl, hmargin, hne, hw, hbehind, rfl⟩
    rw [words_blank_append hmargin, words_word_append hne hw hbehind]

/-! ### White space at the ends -/

theorem trim_eq_self {s : List Char} (h : ∀ c ∈ s, isBlank c = false) : trim s = s := by
  have hdrop (t : List Char) (ht : ∀ c ∈ t, isBlank c = false) : t.dropWhile isBlank = t := by
    cases t with
    | nil => rfl
    | cons c t => exact List.dropWhile_cons_of_neg (by simp [ht c List.mem_cons_self])
  rw [trim, trimStart, hdrop s h, trimEnd, hdrop s.reverse fun c hc => h c (List.mem_reverse.1 hc),
    List.reverse_reverse]

theorem trim_blank_append {t : List Char} (h : ∀ c ∈ t, isBlank c = true) (s : List Char) :
    trim (t ++ s) = trim s := by
  rw [trim, trim, trimStart, trimStart, List.dropWhile_append_of_pos h]

theorem trimEnd_append_blank (s : List Char) {t : List Char} (h : ∀ c ∈ t, isBlank c = true) :
    trimEnd (s ++ t) = trimEnd s := by
  rw [trimEnd, trimEnd, List.reverse_append,
    List.dropWhile_append_of_pos fun c hc => h c (List.mem_reverse.1 hc)]

theorem trim_append_blank (s : List Char) {t : List Char} (h : ∀ c ∈ t, isBlank c = true) :
    trim (s ++ t) = trim s := by
  have hstart : trimStart (s ++ t) = trimStart s ++ t ∨ trimStart (s ++ t) = [] ∧ trimStart s = [] := by
    have ht : t.dropWhile isBlank = [] := by
      have hnil := @List.dropWhile_append_of_pos _ _ _ [] h
      rwa [List.append_nil] at hnil
    rw [trimStart, trimStart, List.dropWhile_append, ht]
    cases s.dropWhile isBlank with
    | nil => exact .inr ⟨rfl, rfl⟩
    | cons c s => exact .inl rfl
  rcases hstart with hstart | ⟨hstart, hnil⟩
  · rw [trim, hstart, trimEnd_append_blank _ h, trim]
  · rw [trim, hstart, trim, hnil]

/-- Nothing is left of a text exactly when it is white space. -/
theorem trim_eq_nil_iff {s : List Char} : trim s = [] ↔ ∀ c ∈ s, isBlank c = true := by
  constructor
  · intro h c hc
    cases hblank : isBlank c with
    | true => rfl
    | false =>
      have hcount := count_trim hblank s
      rw [h, List.count_nil, eq_comm, List.count_eq_zero] at hcount
      exact absurd hc hcount
  · exact trim_append_blank []

theorem dropWhile_append_cons {c : Char} (hc : isBlank c = false) (s t : List Char) :
    (s ++ c :: t).dropWhile isBlank = s.dropWhile isBlank ++ c :: t := by
  rw [List.dropWhile_append]
  cases s.dropWhile isBlank with
  | nil => simp [hc]
  | cons d s => rfl

theorem trimEnd_append_cons {c : Char} (hc : isBlank c = false) (s t : List Char) :
    trimEnd (s ++ c :: t) = s ++ c :: trimEnd t := by
  rw [trimEnd, List.reverse_append, List.reverse_cons, List.append_assoc, List.singleton_append,
    dropWhile_append_cons hc, List.reverse_append, List.reverse_cons, List.reverse_reverse,
    List.append_assoc, List.singleton_append]
  rfl

/-- What is in front of a mark is trimmed at its start, and what is behind it at its end. -/
theorem trim_append_cons {c : Char} (hc : isBlank c = false) (s t : List Char) :
    trim (s ++ c :: t) = trimStart s ++ c :: trimEnd t := by
  rw [trim, trimStart, dropWhile_append_cons hc, trimEnd_append_cons hc]
  rfl

theorem trim_trimStart (s : List Char) : trim (trimStart s) = trim s := by
  have hsplit := List.takeWhile_append_dropWhile (p := isBlank) (l := s)
  have hblank : ∀ c ∈ s.takeWhile isBlank, isBlank c = true := List.all_eq_true.1 List.all_takeWhile
  have h := trim_blank_append hblank (s.dropWhile isBlank)
  rw [hsplit] at h
  exact h.symm

theorem trim_trimEnd (s : List Char) : trim (trimEnd s) = trim s := by
  have hsplit := List.takeWhile_append_dropWhile (p := isBlank) (l := s.reverse)
  have hblank : ∀ c ∈ (s.reverse.takeWhile isBlank).reverse, isBlank c = true :=
    fun c hc => List.all_eq_true.1 List.all_takeWhile c (List.mem_reverse.1 hc)
  have h := trim_append_blank (trimEnd s) hblank
  rw [trimEnd, ← List.reverse_append, hsplit, List.reverse_reverse] at h
  exact h.symm

end LintReport.Text
