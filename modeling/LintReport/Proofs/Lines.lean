import LintReport.Proofs.Fields
import LintReport.Text.Line

/-! Line splitting against line termination: what is written line by line, each line with a newline
behind it, is read as those lines. -/

namespace LintReport.Text

theorem withoutReturn_eq_self {l : List Char} (h : l.getLast? ≠ some '\r') : withoutReturn l = l :=
  if_neg h

theorem withoutReturn_concat (l : List Char) : withoutReturn (l ++ ['\r']) = l := by
  rw [withoutReturn, if_pos List.getLast?_concat, List.dropLast_concat]

theorem withoutReturn_append {l m : List Char} (h : m ≠ []) :
    withoutReturn (l ++ m) = l ++ withoutReturn m := by
  unfold withoutReturn
  rw [List.getLast?_append, Option.or_of_isSome (by simpa using h)]
  split
  · exact List.dropLast_append_of_ne_nil h
  · rfl

theorem mem_of_mem_withoutReturn {l : List Char} {c : Char} (h : c ∈ withoutReturn l) : c ∈ l := by
  unfold withoutReturn at h
  split at h
  · exact (List.dropLast_sublist l).mem h
  · exact h

theorem exists_eq_withoutReturn_append (l : List Char) :
    ∃ t, l = withoutReturn l ++ t ∧ ∀ c ∈ t, isBlank c = true := by
  by_cases h : l.getLast? = some '\r'
  · obtain ⟨front, rfl⟩ := List.getLast?_eq_some_iff.1 h
    rw [withoutReturn_concat]
    exact ⟨['\r'], rfl, List.forall_mem_singleton.2 rfl⟩
  · rw [withoutReturn_eq_self h]
    exact ⟨[], (List.append_nil l).symm, List.forall_mem_nil _⟩

/-- A carriage return at the end of a line is white space there, and does not show in what is
trimmed. -/
theorem trim_withoutReturn (l : List Char) : trim (withoutReturn l) = trim l := by
  obtain ⟨t, hl, ht⟩ := exists_eq_withoutReturn_append l
  have h := trim_append_blank (withoutReturn l) ht
  rw [← hl] at h
  exact h.symm

theorem leadingWord_withoutReturn (l : List Char) :
    leadingWord (withoutReturn l) = leadingWord l := by
  obtain ⟨t, hl, ht⟩ := exists_eq_withoutReturn_append l
  have h := leadingWord_append_blank (withoutReturn l) ht
  rw [← hl] at h
  exact h.symm

theorem nextLine?_append {l : List Char} (h : '\n' ∉ l) (rest : List Char) :
    nextLine? (l ++ '\n' :: rest) = some (withoutReturn l, rest) := by
  have htake : (l ++ '\n' :: rest).takeWhile (· ≠ '\n') = l := before_append h rest
  have hdrop : (l ++ '\n' :: rest).dropWhile (· ≠ '\n') = '\n' :: rest := by
    rw [List.dropWhile_append_of_pos (forall_ne_of_not_mem h)]
    simp
  obtain ⟨c, s, hs⟩ : ∃ c s, l ++ '\n' :: rest = c :: s := List.exists_cons_of_ne_nil (by simp)
  rw [hs] at htake hdrop ⊢
  simp only [nextLine?, hdrop, htake]

/-- No line contains a newline, the last one of an unterminated text included. -/
theorem newline_not_mem_of_nextLine? {s l rest : List Char} (h : nextLine? s = some (l, rest)) :
    '\n' ∉ l := by
  cases s with
  | nil => cases h
  | cons c s =>
    have htake : '\n' ∉ (c :: s).takeWhile (· ≠ '\n') := by
      intro hmem
      simpa using List.all_eq_true.1 List.all_takeWhile _ hmem
    rw [nextLine?] at h
    split at h
    · rename_i hdrop
      rw [Option.some.injEq, Prod.mk.injEq] at h
      rw [← h.1, ← List.takeWhile_append_dropWhile (p := (· ≠ '\n')) (l := c :: s), hdrop,
        List.append_nil]
      exact htake
    · rw [Option.some.injEq, Prod.mk.injEq] at h
      rw [← h.1]
      exact fun hmem => htake (mem_of_mem_withoutReturn hmem)

theorem newline_not_mem_of_mem_lines (s : List Char) : ∀ l ∈ lines s, '\n' ∉ l := by
  fun_induction lines s with
  | case1 => exact List.forall_mem_nil _
  | case2 s l rest hnext ih =>
    exact List.forall_mem_cons.2 ⟨newline_not_mem_of_nextLine? hnext, ih⟩

@[simp] theorem lines_nil : lines [] = [] := by
  rw [lines]
  rfl

/-- Only the empty text has no lines. -/
theorem lines_eq_nil_iff {s : List Char} : lines s = [] ↔ s = [] := by
  constructor
  · intro h
    rw [lines] at h
    split at h
    · rename_i hnext
      cases s with
      | nil => rfl
      | cons c s =>
        rw [nextLine?] at hnext
        split at hnext <;> cases hnext
    · cases h
  · rintro rfl
    exact lines_nil

theorem lines_append {l : List Char} (h : '\n' ∉ l) (rest : List Char) :
    lines (l ++ '\n' :: rest) = withoutReturn l :: lines rest := by
  rw [lines, nextLine?_append h]

/-- What follows a newline is lines of its own. -/
theorem lines_newline (s t : List Char) :
    lines (s ++ '\n' :: t) = lines (s ++ ['\n']) ++ lines t := by
  by_cases h : '\n' ∈ s
  · obtain ⟨l, s', hs, hl⟩ := List.eq_append_cons_of_mem h
    have ih := lines_newline s' t
    rw [hs, List.append_assoc, List.cons_append, lines_append hl, ih, List.append_assoc,
      List.cons_append, lines_append hl, List.cons_append]
  · rw [lines_append h, lines_append h, lines_nil, List.singleton_append]
termination_by s.length
decreasing_by
  rw [hs, List.length_append, List.length_cons]
  omega

theorem unlines_cons (l : List Char) (ls : List (List Char)) :
    unlines (l :: ls) = l ++ '\n' :: unlines ls := by
  simp [unlines]

theorem unlines_append (ls ms : List (List Char)) :
    unlines (ls ++ ms) = unlines ls ++ unlines ms := List.flatMap_append

theorem getLast?_unlines {ls : List (List Char)} (h : ls ≠ []) :
    (unlines ls).getLast? = some '\n' := by
  induction ls with
  | nil => exact absurd rfl h
  | cons l ls ih =>
    rw [unlines_cons, List.getLast?_append]
    cases ls with
    | nil => rfl
    | cons m ls =>
      rw [List.getLast?_cons, ih (List.cons_ne_nil m ls)]
      rfl

theorem length_unlines_cons (l : List Char) (ls : List (List Char)) :
    (unlines (l :: ls)).length = l.length + 1 + (unlines ls).length := by
  rw [unlines_cons, List.length_append, List.length_cons]
  omega

theorem length_unlines_filter_le (p : List Char → Bool) (ls : List (List Char)) :
    (unlines (ls.filter p)).length ≤ (unlines ls).length := by
  induction ls with
  | nil => exact Nat.le_refl _
  | cons l ls ih =>
    by_cases hl : p l = true
    · rw [List.filter_cons_of_pos hl, length_unlines_cons, length_unlines_cons]
      omega
    · rw [List.filter_cons_of_neg hl, length_unlines_cons]
      omega

/-- If leaving out some lines leaves no character out, then it leaves out no line. -/
theorem forall_of_length_unlines_le {p : List Char → Bool} {ls : List (List Char)}
    (h : (unlines ls).length ≤ (unlines (ls.filter p)).length) : ∀ l ∈ ls, p l = true := by
  induction ls with
  | nil => exact nofun
  | cons l ls ih =>
    have hle := length_unlines_filter_le p ls
    by_cases hl : p l = true
    · rw [List.filter_cons_of_pos hl, length_unlines_cons, length_unlines_cons] at h
      have hls := ih (by omega)
      exact List.forall_mem_cons.2 ⟨hl, hls⟩
    · rw [List.filter_cons_of_neg hl, length_unlines_cons] at h
      omega

/-- Newline-free lines are read back, but for a carriage return at the end of one. -/
theorem lines_unlines {ls : List (List Char)} (h : ∀ l ∈ ls, '\n' ∉ l) :
    lines (unlines ls) = ls.map withoutReturn := by
  induction ls with
  | nil => simp [unlines]
  | cons l ls ih =>
    have hls := ih fun m hm => h m (List.mem_cons_of_mem l hm)
    rw [unlines_cons, lines_append (h l List.mem_cons_self), hls, List.map_cons]

/-- Lines that also end in no carriage return are read back as they are. -/
theorem lines_unlines_eq_self {ls : List (List Char)}
    (h : ∀ l ∈ ls, '\n' ∉ l ∧ l.getLast? ≠ some '\r') : lines (unlines ls) = ls := by
  rw [lines_unlines fun l hl => (h l hl).1]
  exact (List.map_congr_left fun l hl => withoutReturn_eq_self (h l hl).2).trans (List.map_id ls)

/-! ### Texts with given lines -/

/-- The texts that consist of some lines. Behind each line is a newline, but for the last line,
which may lack it unless it is empty. -/
inductive Written : List (List Char) → List Char → Prop
  | nil : Written [] []
  | last {l : List Char} (h : l ≠ []) : Written [l] l
  | cons (l : List Char) {ls : List (List Char)} {s : List Char} (h : Written ls s) :
    Written (l :: ls) (l ++ '\n' :: s)

theorem written_unlines (ls : List (List Char)) : Written ls (unlines ls) := by
  induction ls with
  | nil => exact .nil
  | cons l ls ih =>
    rw [unlines_cons]
    exact .cons l ih

/-- A text without a newline is one line, or none if it is empty. -/
theorem lines_eq_singleton {l : List Char} (h : l ≠ []) (hfree : '\n' ∉ l) : lines l = [l] := by
  have hdrop : l.dropWhile (· ≠ '\n') = [] := by
    have hnil := @List.dropWhile_append_of_pos _ _ _ [] (forall_ne_of_not_mem hfree)
    rwa [List.append_nil] at hnil
  obtain ⟨c, s, rfl⟩ := List.exists_cons_of_ne_nil h
  have hnext : nextLine? (c :: s) = some (c :: s, []) := by simp only [nextLine?, hdrop]
  rw [lines, hnext]
  exact congrArg _ lines_nil

/-- What is read off a line and does not hang on a carriage return at its end is the same for the
lines of a text and for those that the text was written from. -/
theorem Written.map_lines {β : Type} {f : List Char → β} (hf : ∀ l, f (withoutReturn l) = f l)
    {ls : List (List Char)} {s : List Char} (h : Written ls s) (hfree : ∀ l ∈ ls, '\n' ∉ l) :
    (lines s).map f = ls.map f := by
  induction h with
  | nil => rw [lines_nil]
  | last hne => rw [lines_eq_singleton hne (hfree _ List.mem_cons_self)]
  | cons l _ ih =>
    obtain ⟨hl, hls⟩ := List.forall_mem_cons.1 hfree
    rw [lines_append hl, List.map_cons, List.map_cons, hf, ih hls]

/-- Splitting at newlines leaves an empty piece behind the last line. -/
theorem splitOn_unlines {ls : List (List Char)} (h : ∀ l ∈ ls, '\n' ∉ l) :
    (unlines ls).splitOn '\n' = ls ++ [[]] := by
  induction ls with
  | nil => rfl
  | cons l ls ih =>
    obtain ⟨hl, hls⟩ := List.forall_mem_cons.1 h
    rw [unlines_cons, List.splitOn_append_cons_self_of_not_mem hl, ih hls]
    rfl

end LintReport.Text
