import LintReport.Proofs.WellFormed

/-! A scanner under any calls. Between any two lines the open hunk may be flushed and the diff ended;
what a call returns can still be read off the calls before it. -/

namespace LintReport.Diff

theorem kind_ne_oldFile {l : List Char} (h : isBoundary l = false) : kind l ≠ .oldFile := by
  intro hkind
  cases h.symm.trans (isBoundary_eq_true (.inl hkind))

/-! ### Calls and what they leave open -/

inductive Call where
  | feed (line : List Char)
  | flush
  | finish (trailing : Trailing)
  deriving DecidableEq

namespace Call

/-- The line that a call feeds. -/
def line? : Call → Option (List Char)
  | feed l => some l
  | _ => none

def isFinish : Call → Bool
  | finish _ => true
  | _ => false

/-- Whether a call feeds a line that ends no hunk. -/
def keepsOpen : Call → Bool
  | feed l => !isBoundary l
  | _ => false

/-- Whether a call returns the record of a hunk that it finds open. -/
def reports : Call → Bool
  | feed l => isBoundary l
  | flush => true
  | finish trailing => trailing = .flush

end Call

/-- The lines that some calls feed. -/
def fed (calls : List Call) : List (List Char) := calls.filterMap Call.line?

/-- The calls behind the last one that ends a diff. -/
def sinceFinish (calls : List Call) : List Call :=
  (calls.reverse.takeWhile (!·.isFinish)).reverse

/-- The file that some calls leave the scanner in: the name in the last file header that they feed
behind the end of the last diff. -/
def currentFile? (calls : List Call) : Option (List Char) := lastFile? (fed (sinceFinish calls))

/-- The hunk that some calls leave open: they feed its header in a file, and behind the header lines
alone, none of which ends it. -/
structure OpenHunk (calls : List Call) where
  earlier : List Call
  header : List Char
  lines : List (List Char)
  file : List Char
  start : UInt32
  calls_eq : calls = earlier ++ .feed header :: lines.map .feed
  header_kind : kind header = .header
  not_boundary : ∀ l ∈ lines, isBoundary l = false
  currentFile_eq : currentFile? calls = some file
  hunkStart_eq : hunkStart? header = some start

/-- The lines that an open hunk owns. -/
def OpenHunk.body {calls : List Call} (h : OpenHunk calls) : List (List Char) :=
  h.lines.filter (kind · ≠ .newFile)

/-- The record that an open hunk is returned as. -/
def OpenHunk.record {calls : List Call} (h : OpenHunk calls) (source title : String) :
    Diagnostic where
  severity := .error
  file := String.ofList h.file
  line := h.start
  column := 1
  source := source
  title := title
  message := String.ofList (h.body.flatMap (· ++ ['\n']))

namespace Scanner

def call (s : Scanner) : Call → Option Diagnostic × Scanner
  | .feed l => s.feed l
  | .flush => s.flush
  | .finish trailing => s.finish trailing

theorem call_feed (s : Scanner) (l : List Char) : s.call (.feed l) = s.feed l := rfl

/-- The scanner behind some calls. -/
def after (s : Scanner) (calls : List Call) : Scanner := calls.foldl (fun s c => (s.call c).2) s

/-- What some calls return, each with the count of skipped lines behind it. -/
def replies (s : Scanner) : List Call → List (Option Diagnostic × Nat)
  | [] => []
  | c :: calls => ((s.call c).1, (s.call c).2.skipped) :: (s.call c).2.replies calls

end Scanner

/-! ### One more call -/

theorem sinceFinish_append (calls : List Call) (c : Call) :
    sinceFinish (calls ++ [c]) = if c.isFinish then [] else sinceFinish calls ++ [c] := by
  unfold sinceFinish
  rw [List.reverse_append, List.reverse_singleton, List.singleton_append, List.takeWhile_cons]
  cases c.isFinish <;> simp

theorem fed_append (calls : List Call) (c : Call) :
    fed (calls ++ [c]) = fed calls ++ c.line?.toList := by
  unfold fed
  rw [List.filterMap_append]
  cases c <;> rfl

theorem currentFile?_feed (calls : List Call) (l : List Char) :
    currentFile? (calls ++ [.feed l]) =
      if kind l = .oldFile then some (fileName l) else currentFile? calls := by
  have hsince : sinceFinish (calls ++ [.feed l]) = sinceFinish calls ++ [.feed l] :=
    sinceFinish_append calls (.feed l)
  rw [currentFile?, hsince, fed_append]
  exact lastFile?_append _ l

theorem currentFile?_flush (calls : List Call) :
    currentFile? (calls ++ [.flush]) = currentFile? calls := by
  have hsince : sinceFinish (calls ++ [.flush]) = sinceFinish calls ++ [.flush] :=
    sinceFinish_append calls .flush
  rw [currentFile?, hsince, fed_append]
  exact congrArg lastFile? (List.append_nil _)

theorem currentFile?_finish (calls : List Call) (trailing : Trailing) :
    currentFile? (calls ++ [.finish trailing]) = none := by
  have hsince : sinceFinish (calls ++ [.finish trailing]) = [] :=
    sinceFinish_append calls (.finish trailing)
  rw [currentFile?, hsince]
  rfl

namespace OpenHunk

variable {calls : List Call}

/-- The hunk that a header opens in a file. -/
def opened {l file : List Char} {start : UInt32} (hl : kind l = .header)
    (hfile : currentFile? calls = some file) (hstart : hunkStart? l = some start) :
    OpenHunk (calls ++ [.feed l]) where
  earlier := calls
  header := l
  lines := []
  file := file
  start := start
  calls_eq := rfl
  header_kind := hl
  not_boundary := List.forall_mem_nil _
  currentFile_eq := by rw [currentFile?_feed, if_neg (by simp [hl]), hfile]
  hunkStart_eq := hstart

/-- An open hunk with one more line. -/
def extend (h : OpenHunk calls) {l : List Char} (hl : isBoundary l = false) :
    OpenHunk (calls ++ [.feed l]) where
  earlier := h.earlier
  header := h.header
  lines := h.lines ++ [l]
  file := h.file
  start := h.start
  calls_eq := by
    rw [List.map_append, ← List.cons_append, ← List.append_assoc, ← h.calls_eq]
    rfl
  header_kind := h.header_kind
  not_boundary := by
    intro m hm
    rcases List.mem_append.1 hm with hm | hm
    · exact h.not_boundary m hm
    · rwa [List.mem_singleton.1 hm]
  currentFile_eq := by
    rw [currentFile?_feed, if_neg (kind_ne_oldFile hl), h.currentFile_eq]
  hunkStart_eq := h.hunkStart_eq

/-- A hunk that is open behind one more call was opened by it, or was open before and got a line
from it. -/
theorem cases_of_append {c : Call} (h : OpenHunk (calls ++ [c])) :
    c = .feed h.header ∨
      ∃ l, c = .feed l ∧ isBoundary l = false ∧ Nonempty (OpenHunk calls) := by
  obtain ⟨earlier, header, lines, file, start, hcalls, hheader, hlines, hfile, hstart⟩ := h
  obtain rfl | ⟨ls, l, rfl⟩ := List.eq_nil_or_concat' lines
  · exact .inl (List.cons.inj (List.append_inj_right' hcalls rfl)).1
  · have hsplit : earlier ++ Call.feed header :: (ls ++ [l]).map .feed =
        (earlier ++ .feed header :: ls.map .feed) ++ [.feed l] := by
      rw [List.map_append, List.append_assoc, List.cons_append]
      rfl
    obtain ⟨hbefore, hc⟩ := List.append_inj' (hcalls.trans hsplit) rfl
    obtain rfl := (List.cons.inj hc).1
    have hl : isBoundary l = false := hlines l (List.mem_append_right _ List.mem_cons_self)
    rw [currentFile?_feed, if_neg (kind_ne_oldFile hl)] at hfile
    have hls : ∀ m ∈ ls, isBoundary m = false := fun m hm =>
      hlines m (List.mem_append_left _ hm)
    exact .inr ⟨l, rfl, hl,
      ⟨earlier, header, ls, file, start, hbefore, hheader, hls, hfile, hstart⟩⟩

/-- A line that ends a hunk leaves only the hunk open that it opens itself. -/
theorem of_isBoundary {l : List Char} (h : OpenHunk (calls ++ [.feed l]))
    (hl : isBoundary l = true) :
    kind l = .header ∧ currentFile? calls = some h.file ∧ hunkStart? l = some h.start := by
  obtain hc | ⟨m, hc, hm, -⟩ := h.cases_of_append
  · have hheader : l = h.header := Call.feed.inj hc
    have hkind : kind l = .header := (congrArg kind hheader).trans h.header_kind
    have hfile := h.currentFile_eq
    rw [currentFile?_feed, if_neg (by simp [hkind])] at hfile
    exact ⟨hkind, hfile, (congrArg hunkStart? hheader).trans h.hunkStart_eq⟩
  · obtain rfl := Call.feed.inj hc
    cases hl.symm.trans hm

theorem nonempty_append_iff {l : List Char} (hl : isBoundary l = false) :
    Nonempty (OpenHunk (calls ++ [.feed l])) ↔ Nonempty (OpenHunk calls) := by
  constructor
  · rintro ⟨h⟩
    obtain hc | ⟨-, -, -, hopen⟩ := h.cases_of_append
    · rw [Call.feed.inj hc, isBoundary_eq_true (.inr h.header_kind)] at hl
      cases hl
    · exact hopen
  · rintro ⟨h⟩
    exact ⟨h.extend hl⟩

/-- Flushing and ending the diff leave no hunk open. -/
theorem not_nonempty_append {c : Call} (hc : c.line? = none) :
    ¬Nonempty (OpenHunk (calls ++ [c])) := by
  rintro ⟨h⟩
  obtain heq | ⟨l, heq, -⟩ := h.cases_of_append <;> rw [heq] at hc <;> cases hc

/-- The header of an open hunk is the last call that is no line within it. -/
theorem takeWhile_dropWhile (h : OpenHunk calls) :
    calls.reverse.takeWhile Call.keepsOpen = (h.lines.map .feed).reverse ∧
      calls.reverse.dropWhile Call.keepsOpen = .feed h.header :: h.earlier.reverse := by
  have hlines : ∀ c ∈ (h.lines.map Call.feed).reverse, c.keepsOpen = true := by
    intro c hc
    obtain ⟨l, hl, rfl⟩ := List.mem_map.1 (List.mem_reverse.1 hc)
    exact congrArg not (h.not_boundary l hl)
  have hheader : ¬(Call.feed h.header).keepsOpen = true := by
    simp [Call.keepsOpen, isBoundary_eq_true (.inr h.header_kind)]
  have hcalls : calls.reverse =
      (h.lines.map .feed).reverse ++ .feed h.header :: h.earlier.reverse := by
    rw [congrArg List.reverse h.calls_eq, List.reverse_append, List.reverse_cons, List.append_assoc]
    rfl
  rw [hcalls, List.takeWhile_append_of_pos hlines, List.dropWhile_append_of_pos hlines,
    List.takeWhile_cons_of_neg hheader, List.dropWhile_cons_of_neg hheader, List.append_nil]
  exact ⟨rfl, rfl⟩

/-- There is at most one open hunk. -/
instance : Subsingleton (OpenHunk calls) where
  allEq g h := by
    have htake := g.takeWhile_dropWhile.1.symm.trans h.takeWhile_dropWhile.1
    have hdrop := g.takeWhile_dropWhile.2.symm.trans h.takeWhile_dropWhile.2
    have hlines : g.lines = h.lines :=
      List.map_injective_iff.2 (fun _ _ => Call.feed.inj) (List.reverse_injective htake)
    obtain ⟨hheader, hearlier⟩ := List.cons.inj hdrop
    have hheader := Call.feed.inj hheader
    have hearlier := List.reverse_injective hearlier
    have hfile := Option.some.inj (g.currentFile_eq.symm.trans h.currentFile_eq)
    have hstart := Option.some.inj
      (g.hunkStart_eq.symm.trans ((congrArg hunkStart? hheader).trans h.hunkStart_eq))
    cases g
    cases h
    cases hlines
    cases hheader
    cases hearlier
    cases hfile
    cases hstart
    rfl

end OpenHunk

/-! ### The state of a scanner and the calls before it -/

/-- What the calls before a scanner say of its state: the file that it is in and the hunk that it
has open. -/
def State.Follows (calls : List Call) : State → Prop
  | .awaitingFile => currentFile? calls = none
  | .awaitingHunk file => currentFile? calls = some file ∧ ¬Nonempty (OpenHunk calls)
  | .accumulating file start body =>
    ∃ h : OpenHunk calls, h.file = file ∧ h.start = start ∧ h.body = body

/-- A state with one more line that ends no hunk. -/
def State.withLine (l : List Char) : State → State
  | .accumulating file start body =>
    .accumulating file start (body ++ [l].filter (kind · ≠ .newFile))
  | state => state

namespace Scanner

variable {s : Scanner} {calls : List Call}

/-- What a call returns is what flushing would return, or nothing. -/
theorem call_fst (s : Scanner) (c : Call) :
    (s.call c).1 = if c.reports then s.flush.1 else none := by
  cases c with
  | feed l =>
    unfold call Call.reports
    cases hl : kind l with
    | newFile => simp [s.feed_newFile hl, isBoundary_eq_false (.inl hl)]
    | oldFile => simp [s.feed_oldFile hl, isBoundary_eq_true (.inl hl)]
    | header => simp [s.feed_header hl, isBoundary_eq_true (.inr hl)]
    | other => simp [s.feed_other hl, isBoundary_eq_false (.inr hl)]
  | flush => rfl
  | finish trailing => cases trailing <;> rfl

/-- Flushing returns the record of the open hunk, if it owns a line. -/
theorem flush_fst_eq_some_iff (h : s.state.Follows calls) {d : Diagnostic} :
    s.flush.1 = some d ↔
      ∃ g : OpenHunk calls, g.body ≠ [] ∧ d = g.record s.source s.title := by
  unfold flush
  cases hstate : s.state with
  | awaitingFile =>
    rw [hstate] at h
    refine ⟨fun hnone => (by cases hnone), fun ⟨g, _⟩ => ?_⟩
    cases h.symm.trans g.currentFile_eq
  | awaitingHunk file =>
    rw [hstate] at h
    exact ⟨fun hnone => (by cases hnone), fun ⟨g, _⟩ => absurd ⟨g⟩ h.2⟩
  | accumulating file start body =>
    rw [hstate] at h
    obtain ⟨g, rfl, rfl, rfl⟩ := h
    dsimp only
    unfold record?
    by_cases hbody : g.body = []
    · rw [if_pos hbody]
      refine ⟨fun hnone => (by cases hnone), fun ⟨g', hbody', _⟩ => ?_⟩
      exact absurd (Subsingleton.elim g' g ▸ hbody) hbody'
    · rw [if_neg hbody]
      constructor
      · intro hd
        exact ⟨g, hbody, (Option.some.inj hd).symm⟩
      · rintro ⟨g', -, rfl⟩
        rw [Subsingleton.elim g' g]
        rfl

/-- Flushing leaves the scanner in its file, with no hunk open. -/
theorem state_flush_of_follows (h : s.state.Follows calls) :
    s.flush.2.state = (currentFile? calls).elim .awaitingFile .awaitingHunk := by
  unfold flush
  cases hstate : s.state with
  | awaitingFile =>
    rw [hstate] at h
    simp [show currentFile? calls = none from h, hstate]
  | awaitingHunk file =>
    rw [hstate] at h
    simp [h.1, hstate]
  | accumulating file start body =>
    rw [hstate] at h
    obtain ⟨g, rfl, -, -⟩ := h
    simp [g.currentFile_eq]

/-- A line that ends no hunk is added to the open one, unless it names a new file. -/
theorem state_feed_of_not_isBoundary (s : Scanner) {l : List Char} (hl : isBoundary l = false) :
    (s.feed l).2.state = s.state.withLine l := by
  cases hkind : kind l with
  | newFile =>
    rw [s.feed_newFile hkind]
    cases hstate : s.state <;> simp [State.withLine, hkind]
  | oldFile => cases hl.symm.trans (isBoundary_eq_true (.inl hkind))
  | header => cases hl.symm.trans (isBoundary_eq_true (.inr hkind))
  | other =>
    rw [s.feed_other hkind]
    unfold take skip
    cases hstate : s.state <;> simp [State.withLine, hkind]

theorem follows_feed_of_not_isBoundary (h : s.state.Follows calls) {l : List Char}
    (hl : isBoundary l = false) : (s.feed l).2.state.Follows (calls ++ [.feed l]) := by
  have hfile : currentFile? (calls ++ [.feed l]) = currentFile? calls := by
    rw [currentFile?_feed, if_neg (kind_ne_oldFile hl)]
  rw [s.state_feed_of_not_isBoundary hl]
  cases hstate : s.state with
  | awaitingFile =>
    rw [hstate] at h
    exact hfile.trans h
  | awaitingHunk file =>
    rw [hstate] at h
    exact ⟨hfile.trans h.1, fun hopen => h.2 ((OpenHunk.nonempty_append_iff hl).1 hopen)⟩
  | accumulating file start body =>
    rw [hstate] at h
    obtain ⟨g, rfl, rfl, rfl⟩ := h
    exact ⟨g.extend hl, rfl, rfl, List.filter_append ..⟩

theorem follows_feed_of_isBoundary (h : s.state.Follows calls) {l : List Char}
    (hl : isBoundary l = true) : (s.feed l).2.state.Follows (calls ++ [.feed l]) := by
  have hfile := currentFile?_feed calls l
  cases hkind : kind l with
  | newFile => cases hl.symm.trans (isBoundary_eq_false (.inl hkind))
  | oldFile =>
    rw [s.feed_oldFile hkind]
    rw [if_pos hkind] at hfile
    refine ⟨hfile, fun ⟨g⟩ => ?_⟩
    cases hkind.symm.trans (g.of_isBoundary hl).1
  | header =>
    rw [if_neg (by simp [hkind])] at hfile
    rw [s.feed_header hkind]
    unfold openHunk
    rw [state_flush_of_follows h]
    cases hcurrent : currentFile? calls with
    | none =>
      show State.Follows _ s.flush.2.state
      rw [state_flush_of_follows h, hcurrent]
      exact hfile.trans hcurrent
    | some file =>
      cases hstart : hunkStart? l with
      | none =>
        show State.Follows _ s.flush.2.state
        rw [state_flush_of_follows h, hcurrent]
        refine ⟨hfile.trans hcurrent, fun ⟨g⟩ => ?_⟩
        cases hstart.symm.trans (g.of_isBoundary hl).2.2
      | some start => exact ⟨.opened hkind hcurrent hstart, rfl, rfl, rfl⟩
  | other => cases hl.symm.trans (isBoundary_eq_false (.inr hkind))

/-- One more call keeps the scanner's state in step with the calls. -/
theorem follows_call (h : s.state.Follows calls) (c : Call) :
    (s.call c).2.state.Follows (calls ++ [c]) := by
  cases c with
  | feed l =>
    cases hl : isBoundary l with
    | false => exact follows_feed_of_not_isBoundary h hl
    | true => exact follows_feed_of_isBoundary h hl
  | flush =>
    have hcall : s.call .flush = s.flush := rfl
    rw [hcall, state_flush_of_follows h]
    have hfile := currentFile?_flush calls
    cases hcurrent : currentFile? calls with
    | none => exact hfile.trans hcurrent
    | some file => exact ⟨hfile.trans hcurrent, OpenHunk.not_nonempty_append rfl⟩
  | finish trailing => exact currentFile?_finish calls trailing

theorem follows_after {before : List Call} (h : s.state.Follows before) (calls : List Call) :
    (s.after calls).state.Follows (before ++ calls) := by
  induction calls generalizing s before with
  | nil => rwa [List.append_nil]
  | cons c calls ih =>
    have hrest := ih (follows_call h c)
    rwa [List.append_assoc] at hrest

/-! ### Counting, and what a finished scanner remembers -/

theorem after_append (s : Scanner) (calls : List Call) (c : Call) :
    s.after (calls ++ [c]) = ((s.after calls).call c).2 := by
  unfold after
  rw [List.foldl_append]
  rfl

theorem source_title_call (s : Scanner) (c : Call) :
    (s.call c).2.source = s.source ∧ (s.call c).2.title = s.title := by
  cases c with
  | feed l => exact s.source_title_feed l
  | flush => exact ⟨s.source_flush, s.title_flush⟩
  | finish trailing => exact ⟨rfl, rfl⟩

theorem source_title_after (s : Scanner) (calls : List Call) :
    (s.after calls).source = s.source ∧ (s.after calls).title = s.title := by
  induction calls generalizing s with
  | nil => exact ⟨rfl, rfl⟩
  | cons c calls ih =>
    obtain ⟨hsource, htitle⟩ := s.source_title_call c
    obtain ⟨hsource', htitle'⟩ := ih (s.call c).2
    exact ⟨hsource'.trans hsource, htitle'.trans htitle⟩

theorem skipped_feed_le (s : Scanner) (l : List Char) :
    s.skipped ≤ (s.feed l).2.skipped ∧ (s.feed l).2.skipped ≤ s.skipped + 1 := by
  cases hl : kind l with
  | newFile => simp [s.feed_newFile hl]
  | oldFile => simp [s.feed_oldFile hl]
  | header =>
    rw [s.feed_header hl]
    unfold openHunk skip
    split <;> simp
  | other =>
    rw [s.feed_other hl]
    unfold take skip
    split <;> simp

/-- Only a line can be skipped. -/
theorem skipped_call (s : Scanner) (c : Call) :
    s.skipped ≤ (s.call c).2.skipped ∧
      (s.call c).2.skipped ≤ s.skipped + if c.line?.isSome then 1 else 0 := by
  cases c with
  | feed l =>
    have hfeeds : (Call.feed l).line?.isSome = true := rfl
    rw [if_pos hfeeds]
    exact s.skipped_feed_le l
  | flush => exact ⟨Nat.le_of_eq s.skipped_flush.symm, Nat.le_of_eq s.skipped_flush⟩
  | finish trailing => exact ⟨Nat.le_refl _, Nat.le_refl _⟩

/-- Nothing is left to flush behind a flush. -/
theorem flush_flush (s : Scanner) : s.flush.2.flush.1 = none := by
  cases hstate : s.state <;> simp [flush, hstate]

/-- The scanner with another count to begin with. -/
def shift (s : Scanner) (n : Nat) : Scanner := { s with skipped := s.skipped + n }

theorem flush_shift (s : Scanner) (n : Nat) :
    (s.shift n).flush = (s.flush.1, s.flush.2.shift n) := by
  cases hstate : s.state <;> simp [flush, shift, hstate, record?]

theorem openHunk_shift (s : Scanner) (n : Nat) (start : Option UInt32) :
    (s.shift n).openHunk start = (s.openHunk start).shift n := by
  cases hstate : s.state <;> cases start <;>
    simp [openHunk, shift, skip, hstate, Nat.add_right_comm]

theorem take_shift (s : Scanner) (n : Nat) (l : List Char) :
    (s.shift n).take l = (s.take l).shift n := by
  cases hstate : s.state <;> simp [take, shift, skip, hstate, Nat.add_right_comm]

/-- What a call returns and does depends on no count. -/
theorem call_shift (s : Scanner) (n : Nat) (c : Call) :
    (s.shift n).call c = ((s.call c).1, (s.call c).2.shift n) := by
  cases c with
  | feed l =>
    rw [call_feed, call_feed]
    cases hl : kind l with
    | newFile => rw [feed_newFile _ hl, feed_newFile _ hl]
    | oldFile =>
      rw [feed_oldFile _ hl, feed_oldFile _ hl, flush_shift]
      rfl
    | header => rw [feed_header _ hl, feed_header _ hl, flush_shift, openHunk_shift]
    | other => rw [feed_other _ hl, feed_other _ hl, take_shift]
  | flush => exact s.flush_shift n
  | finish trailing =>
    unfold call finish
    rw [flush_shift]
    rfl

theorem replies_shift (s : Scanner) (n : Nat) (calls : List Call) :
    (s.shift n).replies calls = (s.replies calls).map (Prod.map id (· + n)) := by
  induction calls generalizing s with
  | nil => rfl
  | cons c calls ih =>
    unfold replies
    rw [call_shift, ih, List.map_cons]
    rfl

/-- A finished scanner is a new one but for its count. -/
theorem after_finish (source title : String) (calls : List Call) (trailing : Trailing) :
    (new source title).after (calls ++ [.finish trailing]) =
      (new source title).shift ((new source title).after calls).skipped := by
  obtain ⟨hsource, htitle⟩ := (new source title).source_title_after calls
  have hcall (s : Scanner) : (s.call (.finish trailing)).2 =
      ⟨s.source, s.title, .awaitingFile, s.skipped⟩ := rfl
  rw [after_append, hcall, hsource, htitle, shift, new, Nat.zero_add]

/-! ### Lines and the messages they are in -/

/-- The line that call `i` feeds is in the message that call `k` returns. -/
def Contributes (source title : String) (calls : List Call) (i k : Nat) : Prop :=
  ∃ (h : OpenHunk (calls.take k)) (c : Call) (d : Diagnostic) (l : List Char),
    calls[k]? = some c ∧ (((new source title).after (calls.take k)).call c).1 = some d ∧
      h.earlier.length < i ∧ i < k ∧ calls[i]? = some (.feed l) ∧ kind l ≠ .newFile

end Scanner

/-- No call within an open hunk returns a record. -/
theorem OpenHunk.reports_eq_false {calls : List Call} (h : OpenHunk calls) {j : Nat} {c : Call}
    (hj : h.earlier.length < j) (hc : calls[j]? = some c) : c.reports = false := by
  have hcalls : calls = (h.earlier ++ [.feed h.header]) ++ h.lines.map .feed := by
    rw [List.append_assoc]
    exact h.calls_eq
  have hlength : (h.earlier ++ [Call.feed h.header]).length ≤ j := by
    rw [List.length_append, List.length_singleton]
    exact hj
  rw [hcalls, List.getElem?_append_right hlength] at hc
  obtain ⟨l, hl, rfl⟩ := List.mem_map.1 (List.mem_of_getElem? hc)
  exact h.not_boundary l hl

namespace Scanner

theorem Contributes.le {source title : String} {calls : List Call} {i j k : Nat}
    (hj : Contributes source title calls i j) (hk : Contributes source title calls i k) :
    k ≤ j := by
  obtain ⟨-, c, d, -, hc, hd, -, hij, -, -⟩ := hj
  obtain ⟨h, -, -, -, -, -, hi, -, -, -⟩ := hk
  refine Nat.le_of_not_lt fun hlt => ?_
  have hreports : c.reports = false := by
    refine h.reports_eq_false (Nat.lt_trans hi hij) ?_
    rw [List.getElem?_take_of_lt hlt, hc]
  rw [call_fst, hreports] at hd
  cases hd

/-- What a scanner does under any calls. A record is returned by a call that ends an open hunk with
a line of its own, and it is the record of that hunk; no line is in two of them; only feeding a
line can move the count, by one; flushing twice in a row returns nothing the second time; and a
finished scanner goes on as a new one that begins with its count. -/
theorem returns_open_hunks (source title : String) (calls : List Call) :
    (∀ c d, (((new source title).after calls).call c).1 = some d ↔
      c.reports = true ∧ ∃ h : OpenHunk calls, h.body ≠ [] ∧ d = h.record source title) ∧
    (∀ h : OpenHunk calls, 1 ≤ h.start.toNat) ∧
    (∀ i j k, Contributes source title calls i j → Contributes source title calls i k → j = k) ∧
    (∀ c, ((new source title).after calls).skipped ≤
        ((new source title).after (calls ++ [c])).skipped ∧
      ((new source title).after (calls ++ [c])).skipped ≤
        ((new source title).after calls).skipped + if c.line?.isSome then 1 else 0) ∧
    (((new source title).after (calls ++ [.flush])).call .flush).1 = none ∧
    ∀ trailing later,
      ((new source title).after (calls ++ [.finish trailing])).replies later =
        ((new source title).replies later).map
          (Prod.map id (· + ((new source title).after calls).skipped)) := by
  have hnew : (new source title).state.Follows [] := rfl
  have hfollows : ((new source title).after calls).state.Follows calls := follows_after hnew calls
  obtain ⟨hsource, htitle⟩ := (new source title).source_title_after calls
  refine ⟨fun c d => ?_, fun h => one_le_of_hunkStart? h.hunkStart_eq,
    fun i j k hj hk => Nat.le_antisymm (hk.le hj) (hj.le hk), fun c => ?_, ?_,
    fun trailing later => ?_⟩
  · have hflush := flush_fst_eq_some_iff hfollows (d := d)
    rw [hsource, htitle] at hflush
    rw [call_fst]
    cases c.reports with
    | false => simp
    | true => simpa [new] using hflush
  · rw [after_append]
    exact skipped_call _ c
  · rw [after_append]
    exact flush_flush _
  · rw [after_finish, replies_shift]

/-- A hunk that is flushed in the middle. -/
def flushedEarly : List Call :=
  [.feed "--- a.py\t1".toList, .feed "@@ -4,2 +4 @@".toList, .feed "-import a".toList, .flush,
    .feed "-import b".toList, .finish .flush]

/-- The first line of the hunk is in the record that the flush returns, and in no other. -/
theorem returns_open_hunks_flushedEarly :
    Contributes "isort" "isort alteration" flushedEarly 2 3 ∧
      ∀ k, Contributes "isort" "isort alteration" flushedEarly 2 k → k = 3 := by
  have hline : Contributes "isort" "isort alteration" flushedEarly 2 3 := by
    let h : OpenHunk (flushedEarly.take 3) := {
      earlier := [.feed "--- a.py\t1".toList], header := "@@ -4,2 +4 @@".toList
      lines := ["-import a".toList], file := "a.py".toList, start := 4
      calls_eq := rfl, header_kind := by decide +kernel, not_boundary := by decide +kernel
      currentFile_eq := by decide +kernel, hunkStart_eq := by decide +kernel }
    refine ⟨h, .flush, h.record "isort" "isort alteration", "-import a".toList, rfl, ?_⟩
    decide +kernel
  have hunique := (returns_open_hunks "isort" "isort alteration" flushedEarly).2.2.1
  exact ⟨hline, fun k hk => hunique 2 k 3 hk hline⟩

end Scanner

end LintReport.Diff
