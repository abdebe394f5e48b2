import LintReport.Proofs.Polling

/-! The merged records of a run, poll by poll. Moving from one parser to the next answers no poll,
so a run is the streams of its parsers laid end to end: its records are theirs, and its count of
skipped lines is made up of the final counts of the exhausted streams and the count of the current
one. -/

namespace LintReport.Toolchain

open Polling

variable {outputs : ToolOutputs}

/-- What a parser has skipped when it is exhausted; nothing if its tool has no output. -/
def finalSkipped (outputs : ToolOutputs) (p : Parser) : Nat :=
  match outputs p.tool with
  | some output => (p.stream (output.channel p.channel)).exhausted.skipped
  | none => 0

/-- What some parsers have skipped when all of them are exhausted. -/
def totalSkipped (outputs : ToolOutputs) : List Parser → Nat
  | [] => 0
  | p :: ps => finalSkipped outputs p + totalSkipped outputs ps

section Lookup
variable {p : Parser} {output : ToolOutput}

theorem recordsOf_of_some (h : outputs p.tool = some output) :
    recordsOf outputs p = p.records (output.channel p.channel) := by
  simp only [recordsOf, h]

theorem recordsOf_of_none (h : outputs p.tool = none) : recordsOf outputs p = [] := by
  simp only [recordsOf, h]

theorem finalSkipped_of_some (h : outputs p.tool = some output) :
    finalSkipped outputs p = (p.stream (output.channel p.channel)).exhausted.skipped := by
  simp only [finalSkipped, h]

theorem finalSkipped_of_none (h : outputs p.tool = none) : finalSkipped outputs p = 0 := by
  simp only [finalSkipped, h]

end Lookup

/-- What a run of some parsers has skipped after `k` polls, by the record that the last poll
answered with. -/
inductive SkippedAfter (outputs : ToolOutputs) (ps : List Parser) : Nat → Nat → Prop
  /-- No poll has reached a parser. -/
  | start : SkippedAfter outputs ps 0 0
  /-- The parsers of `done` are exhausted, and the last poll gave record `j` of the next one. -/
  | within {done rest : List Parser} {p : Parser} {output : ToolOutput} {j : Nat}
      (parsers : ps = done ++ p :: rest) (present : outputs p.tool = some output) (pos : 0 < j)
      (le : j ≤ (p.records (output.channel p.channel)).length) :
      SkippedAfter outputs ps ((done.flatMap (recordsOf outputs)).length + j)
        (totalSkipped outputs done +
          (after Parser.Stream.next (p.stream (output.channel p.channel)) j).skipped)
  /-- The polls outnumber the records, so that all parsers are exhausted. -/
  | ended {k : Nat} (lt : (ps.flatMap (recordsOf outputs)).length < k) :
      SkippedAfter outputs ps k (totalSkipped outputs ps)

/-! ### Moves between parsers -/

namespace Run

/-- A run between two parsers: those before are exhausted, and those of `pending` are to come. -/
def between (outputs : ToolOutputs) (pending : List Parser) (banked : Nat) : Run :=
  { outputs, pending, current := none, banked }

/-- A run in the stream of one parser. -/
def inside (outputs : ToolOutputs) (s : Parser.Stream) (pending : List Parser) (banked : Nat) :
    Run := { outputs, pending, current := some s, banked }

variable {p : Parser} {pending : List Parser} {s t : Parser.Stream} {banked : Nat}

theorem next_inside_of_some {d : Diagnostic} (h : s.next = (some d, t)) :
    (inside outputs s pending banked).next = (some d, inside outputs t pending banked) := by
  simp only [next, inside, h]

/-- The end of a stream answers no poll: its count is banked, and the next parser begins. -/
theorem next_inside_of_none (h : s.next = (none, t)) :
    (inside outputs s pending banked).next =
      (between outputs pending (banked + t.skipped)).next := by
  simp only [next, inside, between, h]

theorem next_between_absent (h : outputs p.tool = none) :
    (between outputs (p :: pending) banked).next = (between outputs pending banked).next := by
  simp only [next, between, advance, h]

/-- Nor does the beginning of a stream. -/
theorem next_between_present {output : ToolOutput} (h : outputs p.tool = some output)
    (pending : List Parser) (banked : Nat) :
    (between outputs (p :: pending) banked).next =
      (inside outputs (p.stream (output.channel p.channel)) pending banked).next := by
  simp only [next, between, inside, advance, h]

/-- Polling a run gives the rest of the current stream and then what comes behind it. -/
theorem exhausts_inside {ds es : List Diagnostic} {u : Run}
    (hs : Exhausts Parser.Stream.next s ds t)
    (hrest : Exhausts next (between outputs pending (banked + t.skipped)) es u) :
    Exhausts next (inside outputs s pending banked) (ds ++ es) u := by
  induction hs with
  | done h _ => exact hrest.congr (next_inside_of_none h)
  | more h _ ih => exact .more (next_inside_of_some h) (ih hrest)

/-- Polling a run gives the records of its parsers, and banks all their counts. -/
theorem exhausts_between (outputs : ToolOutputs) (ps : List Parser) (banked : Nat) :
    Exhausts next (between outputs ps banked) (ps.flatMap (recordsOf outputs))
      (between outputs [] (banked + totalSkipped outputs ps)) := by
  induction ps generalizing banked with
  | nil => exact .done rfl rfl
  | cons p ps ih =>
    rw [List.flatMap_cons, totalSkipped]
    cases h : outputs p.tool with
    | none =>
      rw [recordsOf_of_none h, finalSkipped_of_none h, List.nil_append, Nat.zero_add]
      exact (ih banked).congr (next_between_absent h)
    | some output =>
      rw [recordsOf_of_some h, finalSkipped_of_some h, ← Nat.add_assoc]
      have hrest := ih (banked + (p.stream (output.channel p.channel)).exhausted.skipped)
      have hstream := Parser.Stream.exhausts (p.stream (output.channel p.channel))
      exact (exhausts_inside hstream hrest).congr (next_between_present h ps banked)

/-- As long as its records last, a stream is polled in the run as it is polled on its own. -/
theorem after_inside {ds : List Diagnostic} (hs : Exhausts Parser.Stream.next s ds t) {k : Nat}
    (hk : k ≤ ds.length) :
    after next (inside outputs s pending banked) k =
      inside outputs (after Parser.Stream.next s k) pending banked := by
  induction hs generalizing k with
  | done _ _ =>
    obtain rfl : k = 0 := Nat.le_zero.1 hk
    rfl
  | more h _ ih =>
    cases k with
    | zero => rfl
    | succ k =>
      simp only [after, next_inside_of_some h, h]
      exact ih (Nat.le_of_succ_le_succ hk)

/-- Polls behind the records of a stream are polls of what follows it. -/
theorem after_inside_add {ds : List Diagnostic} (hs : Exhausts Parser.Stream.next s ds t) {k : Nat}
    (hk : 0 < k) :
    after next (inside outputs s pending banked) (ds.length + k) =
      after next (between outputs pending (banked + t.skipped)) k := by
  rw [after_add, after_inside hs (Nat.le_refl _)]
  exact after_congr (next_inside_of_none hs.next_after_length) hk

theorem toList_of_exhausts {r u : Run} {ds : List Diagnostic} (h : Exhausts next r ds u) :
    r.toList = ds := by
  induction h with
  | done h _ =>
    rw [toList]
    split <;> simp_all
  | more h _ ih =>
    rw [toList]
    split <;> simp_all

end Run

/-! ### The count of a run -/

/-- Putting a parser in front of the others adds its records to the polls and its final count to
the lines skipped. -/
theorem SkippedAfter.cons {ps : List Parser} {k n : Nat} (h : SkippedAfter outputs ps k n)
    (hk : 0 < k) (p : Parser) :
    SkippedAfter outputs (p :: ps) ((recordsOf outputs p).length + k)
      (finalSkipped outputs p + n) := by
  cases h with
  | start => omega
  | within parsers present pos le =>
    rename_i done rest q output j
    have hparsers : p :: ps = (p :: done) ++ q :: rest := congrArg (p :: ·) parsers
    have hwithin := SkippedAfter.within hparsers present pos le
    simpa [totalSkipped, Nat.add_assoc] using hwithin
  | ended lt =>
    have hlt : ((p :: ps).flatMap (recordsOf outputs)).length < (recordsOf outputs p).length + k := by
      simpa using lt
    exact .ended hlt

/-- Between two parsers, the count after some polls is the banked one and what the parsers to come
have skipped by then. -/
def Counts (outputs : ToolOutputs) (ps : List Parser) (banked : Nat) : Prop :=
  ∀ k, 0 < k → ∃ n, SkippedAfter outputs ps k n ∧
    (after Run.next (.between outputs ps banked) k).skipped = banked + n

section Counts
variable {p : Parser} {ps : List Parser} {banked : Nat}

theorem counts_nil (outputs : ToolOutputs) (banked : Nat) : Counts outputs [] banked := by
  intro k hk
  have hstill : (Run.between outputs [] banked).next = (none, .between outputs [] banked) := rfl
  refine ⟨0, .ended hk, ?_⟩
  rw [after_of_ended hstill]
  rfl

theorem counts_cons_of_none (h : outputs p.tool = none) (hps : Counts outputs ps banked) :
    Counts outputs (p :: ps) banked := by
  intro k hk
  obtain ⟨n, hn, hafter⟩ := hps k hk
  have hcons := hn.cons hk p
  rw [recordsOf_of_none h, finalSkipped_of_none h, List.length_nil, Nat.zero_add,
    Nat.zero_add] at hcons
  refine ⟨n, hcons, ?_⟩
  rw [after_congr (Run.next_between_absent h) hk, hafter]

theorem counts_cons_of_some {output : ToolOutput} (h : outputs p.tool = some output)
    (hps : Counts outputs ps (banked + finalSkipped outputs p)) :
    Counts outputs (p :: ps) banked := by
  intro k hk
  have hstream := Parser.Stream.exhausts (p.stream (output.channel p.channel))
  rw [after_congr (Run.next_between_present h ps banked) hk]
  -- The last poll is answered by the stream of `p`, or goes beyond it.
  by_cases hle : k ≤ (p.records (output.channel p.channel)).length
  · have hparsers : p :: ps = [] ++ p :: ps := rfl
    have hwithin := SkippedAfter.within hparsers h hk hle
    rw [List.flatMap_nil, List.length_nil, Nat.zero_add, totalSkipped, Nat.zero_add] at hwithin
    refine ⟨_, hwithin, ?_⟩
    rw [Run.after_inside hstream hle]
    rfl
  · obtain ⟨j, rfl⟩ := Nat.exists_eq_add_of_le (Nat.le_of_not_le hle)
    have hj : 0 < j := by omega
    obtain ⟨n, hn, hafter⟩ := hps j hj
    have hcons := hn.cons hj p
    rw [recordsOf_of_some h] at hcons
    refine ⟨_, hcons, ?_⟩
    rw [← Nat.add_assoc, ← hafter, finalSkipped_of_some h]
    exact congrArg Run.skipped (Run.after_inside_add hstream hj)

theorem counts (outputs : ToolOutputs) (ps : List Parser) (banked : Nat) :
    Counts outputs ps banked := by
  induction ps generalizing banked with
  | nil => exact counts_nil outputs banked
  | cons p ps ih =>
    cases h : outputs p.tool with
    | none => exact counts_cons_of_none h (ih banked)
    | some output => exact counts_cons_of_some h (ih (banked + finalSkipped outputs p))

end Counts

theorem skippedAfter_run (t : Toolchain) (outputs : ToolOutputs) (k : Nat) :
    SkippedAfter outputs t.parsers k (after Run.next (t.run outputs) k).skipped := by
  rcases Nat.eq_zero_or_pos k with rfl | hk
  · exact .start
  · obtain ⟨n, hn, hafter⟩ := counts outputs t.parsers 0 k hk
    have hrun : t.run outputs = .between outputs t.parsers 0 := rfl
    rw [hrun, hafter, Nat.zero_add]
    exact hn

theorem runParallel_eq_flatMap (t : Toolchain) (outputs : ToolOutputs) :
    t.runParallel outputs = t.parsers.flatMap (recordsOf outputs) := List.flatMap_def.symm

theorem toList_run (t : Toolchain) (outputs : ToolOutputs) :
    (t.run outputs).toList = t.parsers.flatMap (recordsOf outputs) :=
  Run.toList_of_exhausts (Run.exhausts_between outputs t.parsers 0)

/-- The merged run, poll by poll, is what the parsers give one after the other, each reading its
output on its own, and so is the parallel run. The run ends behind the last record, and its count
of skipped lines adds up those of its parsers at every poll. -/
theorem run_eq_concatenation (t : Toolchain) (outputs : ToolOutputs) :
    (∀ k, answer Run.next (t.run outputs) k = (t.parsers.flatMap (recordsOf outputs))[k]?) ∧
    (t.run outputs).toList = t.runParallel outputs ∧
    t.runParallel outputs = t.parsers.flatMap (recordsOf outputs) ∧
    (∀ (p : Parser) (bytes : Bytes) (k : Nat),
      answer Parser.Stream.next (p.stream bytes) k = (p.records bytes)[k]?) ∧
    (∀ k, SkippedAfter outputs t.parsers k (after Run.next (t.run outputs) k).skipped) ∧
    ∀ k, (after Run.next (t.run outputs) ((t.runParallel outputs).length + 1 + k)).skipped =
      totalSkipped outputs t.parsers := by
  have hrun : Exhausts Run.next (t.run outputs) (t.parsers.flatMap (recordsOf outputs)) _ :=
    Run.exhausts_between outputs t.parsers 0
  have hparallel := t.runParallel_eq_flatMap outputs
  refine ⟨hrun.answer_eq, (t.toList_run outputs).trans hparallel.symm, hparallel,
    fun p bytes => (p.stream bytes).exhausts.answer_eq, t.skippedAfter_run outputs, ?_⟩
  intro k
  have hlength : (t.parsers.flatMap (recordsOf outputs)).length <
      (t.runParallel outputs).length + 1 + k := by
    rw [hparallel]
    omega
  rw [hrun.after_eq hlength, Nat.zero_add]
  exact Nat.add_zero _

end LintReport.Toolchain
