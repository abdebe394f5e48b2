import LintReport.Proofs.Lines
import LintReport.Proofs.Polling
import LintReport.Proofs.Utf8

/-! The cursor against the termination of lines. A cursor gives back the lines that a text was
composed of, whichever line ends stand behind them, and every text is composed of the lines that a
cursor gives. Between two polls the cursor is behind the lines that it has given, at the byte where
the next character begins. -/

namespace LintReport

namespace Text

theorem byteLength_append (s t : List Char) :
    byteLength (s ++ t) = byteLength s + byteLength t := by
  induction s with
  | nil => simp [byteLength]
  | cons c s ih => rw [List.cons_append, byteLength, byteLength, ih, Nat.add_assoc]

theorem byteLength_newline (s : List Char) : byteLength (s ++ ['\n']) = byteLength s + 1 :=
  byteLength_append s ['\n']

/-- Bytes are counted as the encoding has them. -/
theorem length_encode (s : List Char) : (Utf8.encode s).length = byteLength s := by
  induction s with
  | nil => rfl
  | cons c s ih =>
    rw [Utf8.encode, List.flatMap_cons, List.length_append, String.length_utf8EncodeChar,
      byteLength, ← ih]
    rfl

theorem fromByte?_append (s t : List Char) : fromByte? (s ++ t) (byteLength s) = some t := by
  induction s with
  | nil => cases t <;> rfl
  | cons c s ih =>
    have hpos := c.utf8Size_pos
    obtain ⟨n, hn⟩ : ∃ n, byteLength (c :: s) = n + 1 := ⟨byteLength (c :: s) - 1, by
      rw [byteLength]
      omega⟩
    have hle : c.utf8Size ≤ n + 1 := by
      rw [← hn, byteLength]
      omega
    have hrest : n + 1 - c.utf8Size = byteLength s := by
      rw [← hn, byteLength]
      omega
    rw [hn, List.cons_append, fromByte?, if_pos hle, hrest, ih]

/-! ### Lines with their ends -/

/-- What may stand behind a line to end it. Behind a line that has a carriage return at its end, a
newline alone would make that one a part of the line end. -/
inductive IsLineEnd (l : List Char) : List Char → Prop
  | newline (h : l.getLast? ≠ some '\r') : IsLineEnd l ['\n']
  | returnNewline : IsLineEnd l ['\r', '\n']

/-- The texts that some newline-free lines compose. The last line may lack its end, unless it is
empty. -/
inductive Composes : List (List Char) → List Char → Prop
  | nil : Composes [] []
  | last {l : List Char} (hne : l ≠ []) (hfree : '\n' ∉ l) : Composes [l] l
  | line {l e s : List Char} {ls : List (List Char)} (hfree : '\n' ∉ l) (hend : IsLineEnd l e)
    (h : Composes ls s) : Composes (l :: ls) (l ++ (e ++ s))

/-- A line with its end is what stands before a newline, and that newline. -/
theorem IsLineEnd.exists_before {l e : List Char} (h : IsLineEnd l e) (hfree : '\n' ∉ l) :
    ∃ m, '\n' ∉ m ∧ withoutReturn m = l ∧ ∀ s, l ++ (e ++ s) = m ++ '\n' :: s := by
  cases h with
  | newline h => exact ⟨l, hfree, withoutReturn_eq_self h, fun _ => rfl⟩
  | returnNewline =>
    refine ⟨l ++ ['\r'], ?_, withoutReturn_concat l, fun s => ?_⟩
    · simpa using hfree
    · rw [List.append_assoc]
      rfl

/-- What stands before a newline is a line, perhaps with a part of its end. -/
theorem exists_isLineEnd (m s : List Char) :
    ∃ e, IsLineEnd (withoutReturn m) e ∧ m ++ '\n' :: s = withoutReturn m ++ (e ++ s) := by
  by_cases h : m.getLast? = some '\r'
  · obtain ⟨l, rfl⟩ := List.getLast?_eq_some_iff.1 h
    rw [withoutReturn_concat]
    refine ⟨['\r', '\n'], .returnNewline, ?_⟩
    rw [List.append_assoc]
    rfl
  · rw [withoutReturn_eq_self h]
    exact ⟨['\n'], .newline h, rfl⟩

namespace Composes

variable {ls : List (List Char)} {s : List Char}

theorem newline_not_mem (h : Composes ls s) : ∀ l ∈ ls, '\n' ∉ l := by
  induction h with
  | nil => exact List.forall_mem_nil _
  | last _ hfree => exact List.forall_mem_singleton.2 hfree
  | line hfree _ _ ih => exact List.forall_mem_cons.2 ⟨hfree, ih⟩

theorem lines_eq (h : Composes ls s) : lines s = ls := by
  induction h with
  | nil => exact lines_nil
  | last hne hfree => exact lines_eq_singleton hne hfree
  | @line l e s ls hfree hend _ ih =>
    obtain ⟨m, hm, hl, htext⟩ := hend.exists_before hfree
    rw [htext, lines_append hm, hl, ih]

end Composes

/-- Every text is composed of its lines. -/
theorem composes_lines (s : List Char) : Composes (lines s) s := by
  by_cases h : '\n' ∈ s
  · obtain ⟨m, t, hs, hm⟩ := List.eq_append_cons_of_mem h
    have ih := composes_lines t
    obtain ⟨e, hend, htext⟩ := exists_isLineEnd m t
    have hfree : '\n' ∉ withoutReturn m := fun hmem => hm (mem_of_mem_withoutReturn hmem)
    rw [hs, lines_append hm, htext]
    exact .line hfree hend ih
  · by_cases hne : s = []
    · rw [hne, lines_nil]
      exact .nil
    · rw [lines_eq_singleton hne h]
      exact .last hne h
termination_by s.length
decreasing_by
  rw [hs, List.length_append, List.length_cons]
  omega

theorem composes_iff {ls : List (List Char)} {s : List Char} : Composes ls s ↔ lines s = ls :=
  ⟨Composes.lines_eq, fun h => h ▸ composes_lines s⟩

/-! ### The cursor -/

namespace Cursor

open Polling

/-- The cursor between two parts of its text. -/
def between (front rest : List Char) : Cursor := { text := front ++ rest, pos := byteLength front }

theorem rest?_between (front rest : List Char) : (between front rest).rest? = some rest :=
  fromByte?_append front rest

theorem next_between_end (s : List Char) : (between s []).next = (none, between s []) := by
  have hend : byteLength (between s []).text ≤ (between s []).pos :=
    Nat.le_of_eq (congrArg byteLength (List.append_nil s))
  rw [next, if_pos hend]

theorem not_at_end {front rest : List Char} (h : rest ≠ []) :
    ¬byteLength (between front rest).text ≤ (between front rest).pos := by
  obtain ⟨c, rest, rfl⟩ := List.exists_cons_of_ne_nil h
  have hpos := c.utf8Size_pos
  simp only [between, byteLength_append, byteLength]
  omega

/-- A newline ends a line, and the cursor moves behind it. -/
theorem next_between_line {m : List Char} (hm : '\n' ∉ m) (front rest : List Char) :
    (between front (m ++ '\n' :: rest)).next =
      (some (withoutReturn m), between (front ++ (m ++ ['\n'])) rest) := by
  have hpos : byteLength (front ++ (m ++ ['\n'])) = byteLength front + byteLength m + 1 := by
    rw [byteLength_append, byteLength_newline, Nat.add_assoc]
  have htext : front ++ (m ++ ['\n']) ++ rest = front ++ (m ++ '\n' :: rest) := by
    simp only [List.append_assoc, List.singleton_append]
  rw [next, if_neg (not_at_end (by simp)), rest?_between]
  simp only [cut?_append hm]
  rw [between, between, hpos, htext]

/-- A line that no newline ends is the last one. -/
theorem next_between_last {l : List Char} (hne : l ≠ []) (hfree : '\n' ∉ l) (front : List Char) :
    (between front l).next = (some l, between (front ++ l) []) := by
  rw [next, if_neg (not_at_end hne), rest?_between]
  simp only [cut?_eq_none_iff.2 hfree]
  rw [between, between, List.append_nil]

/-- From anywhere in a text the cursor gives the lines that the rest is composed of. -/
theorem exhausts_between {ls : List (List Char)} {rest : List Char} (h : Composes ls rest)
    (front : List Char) : Exhausts next (between front rest) ls (between (front ++ rest) []) := by
  induction h generalizing front with
  | nil =>
    rw [List.append_nil]
    exact .done (next_between_end front) (next_between_end front)
  | last hne hfree =>
    exact .more (next_between_last hne hfree front)
      (.done (next_between_end _) (next_between_end _))
  | @line l e s ls hfree hend _ ih =>
    obtain ⟨m, hm, hl, htext⟩ := hend.exists_before hfree
    have hrest := ih (front ++ (m ++ ['\n']))
    simp only [List.append_assoc, List.singleton_append] at hrest
    rw [htext, ← hl]
    exact .more (next_between_line hm front s) hrest

/-- After some polls the cursor stands between the lines that it has given, with their ends, and
those to come. -/
theorem after_between {ls : List (List Char)} {rest : List Char} (h : Composes ls rest)
    (front : List Char) (k : Nat) :
    ∃ passed left, rest = passed ++ left ∧ Composes (ls.take k) passed ∧
      Composes (ls.drop k) left ∧
      after next (between front rest) k = between (front ++ passed) left := by
  induction h generalizing front k with
  | nil =>
    refine ⟨[], [], rfl, ?_, ?_, ?_⟩
    · rw [List.take_nil]
      exact .nil
    · rw [List.drop_nil]
      exact .nil
    · rw [after_of_ended (next_between_end front), List.append_nil]
  | @last l hne hfree =>
    cases k with
    | zero => exact ⟨[], l, rfl, .nil, .last hne hfree, by rw [List.append_nil]; rfl⟩
    | succ k =>
      refine ⟨l, [], (List.append_nil l).symm, ?_, ?_, ?_⟩
      · rw [List.take_succ_cons, List.take_nil]
        exact .last hne hfree
      · rw [List.drop_succ_cons, List.drop_nil]
        exact .nil
      · rw [after, next_between_last hne hfree, after_of_ended (next_between_end _)]
  | @line l e s ls hfree hend hls ih =>
    cases k with
    | zero =>
      exact ⟨[], l ++ (e ++ s), rfl, .nil, .line hfree hend hls, by rw [List.append_nil]; rfl⟩
    | succ k =>
      obtain ⟨m, hm, hl, htext⟩ := hend.exists_before hfree
      obtain ⟨passed, left, rfl, hpassed, hleft, hafter⟩ := ih (front ++ (m ++ ['\n'])) k
      refine ⟨l ++ (e ++ passed), left, by simp only [List.append_assoc], ?_, hleft, ?_⟩
      · rw [List.take_succ_cons]
        exact .line hfree hend hpassed
      · rw [after, htext, next_between_line hm, hafter, htext]
        simp only [List.append_assoc, List.singleton_append]

theorem toList_of_exhausts {c t : Cursor} {ls : List (List Char)} (h : Exhausts next c ls t) :
    c.toList = ls := by
  induction h with
  | done h _ => rw [toList, h]
  | more h _ ih =>
    rw [toList, h]
    exact congrArg _ ih

theorem exhausts_start (s : List Char) : Exhausts next (start s) (lines s) (between s []) :=
  exhausts_between (composes_lines s) []

theorem toList_start (s : List Char) : (start s).toList = lines s :=
  toList_of_exhausts (exhausts_start s)

theorem between_eq (front rest : List Char) :
    between front rest = { text := front ++ rest, pos := (Utf8.encode front).length } := by
  rw [length_encode]
  rfl

theorem between_end (s : List Char) :
    between s [] = { text := s, pos := (Utf8.encode s).length } := by
  rw [between_eq, List.append_nil]

theorem pos_lt_pos_after {c : Cursor} {k : Nat} {l : List Char}
    (h : answer next c k = some l) : (after next c k).pos < (after next c (k + 1)).pos := by
  have hnext : (after next c k).next = (some l, (after next c k).next.2) := Prod.ext h rfl
  rw [after_add]
  exact (moves_of_next hnext).2.1

/-- Splitting undoes termination. A cursor gives some lines, then nothing and stays at the end of the
text, if and only if the text is composed of these lines; and there are such lines for every text. After
any polls the cursor is between the text of the lines that it has given and that of the lines to come,
and each line has moved it forward. -/
theorem undoes_line_ends (s : List Char) :
    (∀ ls, Exhausts next (start s) ls { text := s, pos := (Utf8.encode s).length } ↔
      Composes ls s) ∧
      (Composes (start s).toList s ∧ ∀ l ∈ (start s).toList, '\n' ∉ l) ∧
      ∀ k, (∃ passed left, s = passed ++ left ∧ Composes ((start s).toList.take k) passed ∧
        Composes ((start s).toList.drop k) left ∧
        after next (start s) k = { text := s, pos := (Utf8.encode passed).length } ∧
        (after next (start s) k).rest? = some left) ∧
        ∀ l, answer next (start s) k = some l →
          (after next (start s) k).pos < (after next (start s) (k + 1)).pos := by
  have hlines : Composes (start s).toList s := composes_iff.2 (toList_start s).symm
  refine ⟨fun ls => ⟨fun h => ?_, fun h => ?_⟩, ⟨hlines, hlines.newline_not_mem⟩, fun k => ⟨?_, ?_⟩⟩
  · rwa [← toList_of_exhausts h]
  · rw [← between_end]
    exact exhausts_between h []
  · obtain ⟨passed, left, hs, hpassed, hleft, hafter⟩ := after_between hlines [] k
    refine ⟨passed, left, hs, hpassed, hleft, ?_, ?_⟩
    · rw [hs, ← between_eq, ← hs]
      exact hafter
    · exact (congrArg rest? hafter).trans (rest?_between passed left)
  · exact fun l => pos_lt_pos_after

/-- A text with both line ends, a carriage return in front of one and another at the end of the text,
and characters of two bytes. -/
theorem undoes_line_ends_mixed :
    Composes [['é', '\r'], [], ['ß', '\r']] ['é', '\r', '\r', '\n', '\n', 'ß', '\r'] ∧
      Exhausts next (start ['é', '\r', '\r', '\n', '\n', 'ß', '\r'])
        [['é', '\r'], [], ['ß', '\r']]
        { text := ['é', '\r', '\r', '\n', '\n', 'ß', '\r'], pos := 9 } ∧
      answer next (start ['é', '\r', '\r', '\n', '\n', 'ß', '\r']) 0 = some ['é', '\r'] ∧
      (after next (start ['é', '\r', '\r', '\n', '\n', 'ß', '\r']) 0).pos <
        (after next (start ['é', '\r', '\r', '\n', '\n', 'ß', '\r']) 1).pos := by
  have hlast : Composes [['ß', '\r']] ['ß', '\r'] := .last (by decide) (by decide)
  have hempty : Composes [[], ['ß', '\r']] ['\n', 'ß', '\r'] :=
    .line (by decide) (.newline (by decide)) hlast
  have h : Composes [['é', '\r'], [], ['ß', '\r']] ['é', '\r', '\r', '\n', '\n', 'ß', '\r'] :=
    .line (by decide) .returnNewline hempty
  have hfirst : answer next (start ['é', '\r', '\r', '\n', '\n', 'ß', '\r']) 0 =
      some ['é', '\r'] := by decide
  exact ⟨h, ((undoes_line_ends _).1 _).2 h, hfirst, ((undoes_line_ends _).2.2 0).2 _ hfirst⟩

end Cursor

end Text

namespace Parser

/-- The records of some output are read off its lines. -/
theorem stream_eq (p : Parser) (output : Bytes) : p.stream output = p.streamOf (p.lines output) :=
  congrArg p.streamOf (Text.Cursor.toList_start _)

theorem records_of_exhausts (p : Parser) (output : Bytes) {ds : List Diagnostic} {t : Stream}
    (h : Polling.Exhausts Stream.next (p.streamOf (p.lines output)) ds t) :
    p.records output = ds ∧ (p.stream output).exhausted = t := by
  rw [← stream_eq] at h
  exact Stream.eq_of_exhausts h

end Parser

end LintReport
