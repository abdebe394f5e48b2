import LintReport.Toolchain

/-! Lazy streams under polling. A stream is a state and a step that answers one poll and moves
the state; a stream that has ended answers `none` and stays as it is, so that it can be polled on.
The records of one tool and the merged records of a run are both of this kind. -/

namespace LintReport.Polling

variable {σ α : Type} {next : σ → Option α × σ}

/-- The stream behind some polls. -/
def after (next : σ → Option α × σ) : σ → Nat → σ
  | s, 0 => s
  | s, k + 1 => after next (next s).2 k

/-- The answer to the poll that follows `k` others. -/
def answer (next : σ → Option α × σ) (s : σ) (k : Nat) : Option α := (next (after next s k)).1

/-- Polling a stream gives `as`, one after the other, and then ends it in the state `t`, which no
further poll changes. -/
inductive Exhausts (next : σ → Option α × σ) : σ → List α → σ → Prop
  | done {s t : σ} (h : next s = (none, t)) (still : next t = (none, t)) : Exhausts next s [] t
  | more {s s' t : σ} {a : α} {as : List α} (h : next s = (some a, s'))
      (rest : Exhausts next s' as t) : Exhausts next s (a :: as) t

theorem after_add (s : σ) (j k : Nat) : after next s (j + k) = after next (after next s j) k := by
  induction j generalizing s with
  | zero => rw [Nat.zero_add]; rfl
  | succ j ih =>
    rw [Nat.succ_add]
    exact ih (next s).2

/-- Two streams that answer the next poll alike cannot be told apart from then on. -/
theorem after_congr {s t : σ} (h : next s = next t) {k : Nat} (hk : 0 < k) :
    after next s k = after next t k := by
  cases k with
  | zero => omega
  | succ k => simp only [after, h]

theorem after_of_ended {t : σ} (still : next t = (none, t)) (k : Nat) : after next t k = t := by
  induction k with
  | zero => rfl
  | succ k ih => rw [after, still, ih]

/-- What relates two streams, if every poll keeps it, still relates them after any polls. -/
theorem after_related {τ β : Type} {next' : τ → Option β × τ} {r : σ → τ → Prop}
    (step : ∀ s t, r s t → r (next s).2 (next' t).2) {s : σ} {t : τ} (h : r s t) (k : Nat) :
    r (after next s k) (after next' t k) := by
  induction k generalizing s t with
  | zero => exact h
  | succ k ih => exact ih (step s t h)

namespace Exhausts

variable {s t u : σ} {as : List α}

theorem ended (h : Exhausts next s as t) : next t = (none, t) := by
  induction h with
  | done _ still => exact still
  | more _ _ ih => exact ih

theorem congr (h : Exhausts next s as t) (hu : next u = next s) : Exhausts next u as t := by
  cases h with
  | done h still => exact .done (hu.trans h) still
  | more h rest => exact .more (hu.trans h) rest

/-- Each poll answers with the record of its place, and those behind the last one with `none`. -/
theorem answer_eq (h : Exhausts next s as t) (k : Nat) : answer next s k = as[k]? := by
  induction h generalizing k with
  | done h still =>
    cases k with
    | zero => simp [answer, after, h]
    | succ k => simp [answer, after, h, after_of_ended still, still]
  | more h _ ih =>
    cases k with
    | zero => simp [answer, after, h]
    | succ k => simpa [answer, after, h] using ih k

/-- The poll behind the last record reaches the end, and later ones change nothing. -/
theorem after_eq (h : Exhausts next s as t) {k : Nat} (hk : as.length < k) :
    after next s k = t := by
  induction h generalizing k with
  | done h still =>
    cases k with
    | zero => simp at hk
    | succ k => simp only [after, h, after_of_ended still]
  | more h _ ih =>
    cases k with
    | zero => simp at hk
    | succ k =>
      simp only [after, h]
      exact ih (by simpa using hk)

/-- Behind its last record a stream is not yet at its end, but the next poll takes it there. -/
theorem next_after_length (h : Exhausts next s as t) :
    next (after next s as.length) = (none, t) := by
  induction h with
  | done h _ => exact h
  | more h _ ih => simpa only [List.length_cons, after, h] using ih

end Exhausts

end LintReport.Polling

namespace LintReport.Parser

open Polling

/-! ### What a poll can do -/

/-- A record is read off the first line that is one; the lines before it are counted. -/
theorem OneLineStream.exists_of_nextFrom {format : OneLineFormat} {rest : List (List Char)}
    {n : Nat} {d : Diagnostic} {t : OneLineStream} (h : nextFrom format rest n = (some d, t)) :
    ∃ passed line, rest = passed ++ line :: t.rest ∧ (∀ l ∈ passed, format.record? l = none) ∧
      format.record? line = some d ∧ t.format = format ∧ t.skipped = n + passed.length := by
  induction rest generalizing n with
  | nil => simp [nextFrom] at h
  | cons line rest ih =>
    unfold nextFrom at h
    split at h
    · rename_i hrecord
      simp only [Prod.mk.injEq, Option.some.injEq] at h
      obtain ⟨rfl, rfl⟩ := h
      exact ⟨[], line, rfl, List.forall_mem_nil _, hrecord, rfl, rfl⟩
    · rename_i hnone
      obtain ⟨passed, line', hrest, hpassed, hrecord, hformat, hskipped⟩ := ih h
      refine ⟨line :: passed, line', by rw [hrest]; rfl, List.forall_mem_cons.2 ⟨hnone, hpassed⟩,
        hrecord, hformat, ?_⟩
      rw [hskipped, List.length_cons]
      omega

/-- A record is read off a header whose number can be read, and the line behind it. -/
theorem DocstyleStream.exists_of_nextFrom {rest : List (List Char)} {n : Nat} {d : Diagnostic}
    {t : DocstyleStream} (h : nextFrom rest n = (some d, t)) :
    ∃ passed header message file number line, rest = passed ++ header :: message :: t.rest ∧
      splitHeader? header = some (file, number) ∧ Text.position? number = some line ∧
      d = .error (String.ofList file) line 1 source (String.ofList (Text.trim message)) := by
  fun_induction nextFrom rest n with
  | case1 => simp at h
  | case2 header rest n _ ih =>
    obtain ⟨passed, header', message, file, number, line, hrest, hread⟩ := ih h
    exact ⟨header :: passed, header', message, file, number, line, by rw [hrest]; rfl, hread⟩
  | case3 => simp at h
  | case4 header n file number hheader message rest line hline =>
    simp only [Prod.mk.injEq, Option.some.injEq] at h
    obtain ⟨rfl, rfl⟩ := h
    exact ⟨[], header, message, file, number, line, rfl, hheader, hline, rfl⟩
  | case5 header n file number _ message rest _ ih =>
    obtain ⟨passed, header', message', file', number', line, hrest, hread⟩ := ih h
    exact ⟨header :: message :: passed, header', message', file', number', line,
      by rw [hrest]; rfl, hread⟩

/-- A stream is polled as what it is, and stays a stream of its kind. -/
theorem Stream.cases_of_next {s t : Stream} {answer : Option Diagnostic}
    (h : s.next = (answer, t)) :
    (∃ u v, s = .oneLine u ∧ t = .oneLine v ∧ u.next = (answer, v)) ∨
    (∃ u v, s = .docstyle u ∧ t = .docstyle v ∧ u.next = (answer, v)) ∨
    ∃ u v, s = .hunks u ∧ t = .hunks v ∧ u.next = (answer, v) := by
  cases s with
  | oneLine u =>
    obtain ⟨hanswer, rfl⟩ := Prod.mk.inj h
    exact .inl ⟨u, u.next.2, rfl, rfl, Prod.ext hanswer rfl⟩
  | docstyle u =>
    obtain ⟨hanswer, rfl⟩ := Prod.mk.inj h
    exact .inr (.inl ⟨u, u.next.2, rfl, rfl, Prod.ext hanswer rfl⟩)
  | hunks u =>
    obtain ⟨hanswer, rfl⟩ := Prod.mk.inj h
    exact .inr (.inr ⟨u, u.next.2, rfl, rfl, Prod.ext hanswer rfl⟩)

/-! ### The end of a stream -/

theorem OneLineStream.ended_of_nextFrom {format : OneLineFormat} {rest : List (List Char)}
    {n : Nat} {t : OneLineStream} (h : nextFrom format rest n = (none, t)) : t.next = (none, t) := by
  induction rest generalizing n with
  | nil =>
    simp only [nextFrom, Prod.mk.injEq, true_and] at h
    subst h
    rfl
  | cons line rest ih =>
    rw [nextFrom] at h
    split at h
    · simp at h
    · exact ih h

theorem DocstyleStream.ended_of_nextFrom {rest : List (List Char)} {n : Nat} {t : DocstyleStream}
    (h : nextFrom rest n = (none, t)) : t.next = (none, t) := by
  fun_induction nextFrom rest n with
  | case1 => simp at h; subst h; rfl
  | case2 header rest n _ ih => exact ih h
  | case3 => simp at h; subst h; rfl
  | case4 => simp at h
  | case5 header n file number _ message rest _ ih => exact ih h

theorem HunkStream.finished_of_nextFrom {trailing : Diff.Trailing} {rest : List (List Char)}
    {scanner : Diff.Scanner} {t : HunkStream} (h : nextFrom trailing rest scanner = (none, t)) :
    t.finished = true := by
  induction rest generalizing scanner with
  | nil =>
    simp only [nextFrom, Prod.mk.injEq] at h
    rw [← h.2]
  | cons line rest ih =>
    rw [nextFrom] at h
    split at h
    · simp at h
    · exact ih h

theorem HunkStream.ended_of_next {s t : HunkStream} (h : s.next = (none, t)) :
    t.next = (none, t) := by
  have ht : t.finished = true := by
    rw [next] at h
    split at h
    · rename_i hs
      simp only [Prod.mk.injEq, true_and] at h
      rwa [← h]
    · exact finished_of_nextFrom h
  rw [next, if_pos ht]

namespace Stream

/-- A stream that answers `none` has ended. -/
theorem ended_of_next {s t : Stream} (h : s.next = (none, t)) : t.next = (none, t) := by
  obtain ⟨u, v, -, rfl, hnext⟩ | ⟨u, v, -, rfl, hnext⟩ | ⟨u, v, -, rfl, hnext⟩ := cases_of_next h
  · simp [next, OneLineStream.ended_of_nextFrom hnext]
  · simp [next, DocstyleStream.ended_of_nextFrom hnext]
  · simp [next, HunkStream.ended_of_next hnext]

theorem exists_exhausts (s : Stream) : ∃ t, Exhausts next s s.toList t := by
  fun_induction toList s with
  | case1 s t h => exact ⟨t, .done h (ended_of_next h)⟩
  | case2 s d s' h ih =>
    obtain ⟨t, ht⟩ := ih
    exact ⟨t, .more h ht⟩

/-- The stream when all its records have been read and its end has been reached. -/
def exhausted (s : Stream) : Stream := after next s (s.toList.length + 1)

/-- Polling a stream gives its list of records. -/
theorem exhausts (s : Stream) : Exhausts next s s.toList s.exhausted := by
  obtain ⟨t, h⟩ := exists_exhausts s
  rw [exhausted, h.after_eq (Nat.lt_succ_self _)]
  exact h

/-- What polling yields is the list of records, and where it ends is the exhausted stream. -/
theorem eq_of_exhausts {s t : Stream} {ds : List Diagnostic} (h : Exhausts next s ds t) :
    s.toList = ds ∧ s.exhausted = t := by
  have hds : s.toList = ds := by
    apply List.ext_getElem?
    intro k
    rw [← s.exhausts.answer_eq, h.answer_eq]
  exact ⟨hds, by rw [exhausted, hds, h.after_eq (Nat.lt_succ_self _)]⟩

/-- Streams that answer alike, and stay so related, have the same records. -/
theorem exhausted_related {r : Stream → Stream → Prop}
    (step : ∀ s t, r s t → s.next.1 = t.next.1 ∧ r s.next.2 t.next.2) {s t : Stream} (h : r s t) :
    s.toList = t.toList ∧ r s.exhausted t.exhausted := by
  have hafter := after_related (fun s t h => (step s t h).2) h
  have hlist : s.toList = t.toList := by
    apply List.ext_getElem?
    intro k
    rw [← s.exhausts.answer_eq, ← t.exhausts.answer_eq]
    exact (step _ _ (hafter k)).1
  refine ⟨hlist, ?_⟩
  rw [exhausted, exhausted, ← hlist]
  exact hafter _

end Stream

end LintReport.Parser
