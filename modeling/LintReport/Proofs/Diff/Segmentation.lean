import LintReport.Proofs.Diff.Scan

/-! The hunks of a diff, read off its lines as a whole: which line opens a hunk depends on the
lines before it, and what a hunk owns on the lines behind. A diff parser gives one record for each
hunk that owns a line, in their order, and counts the lines that no hunk has a use for. -/

namespace LintReport.Diff

/-! ### Hunks of a text -/

inductive Kind where
  | newFile
  | oldFile
  | header
  | other
  deriving DecidableEq

/-- The kind of a line, from its first characters. -/
def kind (l : List Char) : Kind :=
  if "+++ ".toList <+: l then .newFile
  else if "--- ".toList <+: l then .oldFile
  else if "@@".toList <+: l then .header
  else .other

/-- Where a hunk ends. -/
def isBoundary (l : List Char) : Bool := kind l = .oldFile || kind l = .header

/-- The name in a file header: its text up to the first tab. -/
def fileName (l : List Char) : List Char := (l.drop 4).takeWhile (· ≠ '\t')

/-- The name in the last file header of some lines. -/
def lastFile? (ls : List (List Char)) : Option (List Char) :=
  (ls.reverse.find? (kind · = .oldFile)).map fileName

/-- The file and the start of the hunk that a line opens, if it opens one. -/
def opening? (before : List (List Char)) (l : List Char) : Option (List Char × UInt32) :=
  if kind l = .header then
    (lastFile? before).bind fun file => (hunkStart? l).map fun start => (file, start)
  else none

/-- The lines that a hunk owns, of those behind its header. -/
def owned (ls : List (List Char)) : List (List Char) :=
  (ls.takeWhile (!isBoundary ·)).filter (kind · = .other)

structure Hunk where
  file : List Char
  start : UInt32
  body : List (List Char)
  /-- Whether something ends the hunk before the text ends. -/
  closed : Bool

/-- A line of a text, with the lines before it and behind it. -/
structure View where
  before : List (List Char)
  line : List Char
  behind : List (List Char)

def viewsFrom (before : List (List Char)) : List (List Char) → List View
  | [] => []
  | l :: ls => ⟨before, l, ls⟩ :: viewsFrom (before ++ [l]) ls

/-- All lines of a text in their places. -/
def views (ls : List (List Char)) : List View := viewsFrom [] ls

def View.hunk? (v : View) : Option Hunk :=
  (opening? v.before v.line).map fun (file, start) =>
    { file, start, body := owned v.behind, closed := v.behind.any isBoundary }

/-- The hunks of a text, in their order. -/
def hunks (ls : List (List Char)) : List Hunk := (views ls).filterMap View.hunk?

/-- Whether a hunk is open behind some lines: one of them opens it, and none later ends it. -/
def inHunk (ls : List (List Char)) : Bool :=
  (views ls).any fun v => v.hunk?.isSome && !v.behind.any isBoundary

/-- A line that could be part of a hunk, but that no hunk owns. -/
def View.isStray (v : View) : Bool := kind v.line = .other && !inHunk v.before

/-- A hunk header that opens no hunk. -/
def View.isIdleHeader (v : View) : Bool := kind v.line = .header && v.hunk?.isNone

/-- Whether a hunk is reported: one without lines is not, and one that the end of the text cuts
off is only if it is to be flushed. -/
def Hunk.isReported (trailing : Trailing) (h : Hunk) : Bool :=
  h.body ≠ [] && (h.closed || trailing = .flush)

def Hunk.toDiagnostic (source title : String) (h : Hunk) : Diagnostic where
  severity := .error
  file := String.ofList h.file
  line := h.start
  column := 1
  source := source
  title := title
  message := String.ofList (h.body.flatMap (· ++ ['\n']))

/-- The records of some hunks. -/
def report (source title : String) (trailing : Trailing) (hs : List Hunk) : List Diagnostic :=
  (hs.filter (Hunk.isReported trailing)).map (Hunk.toDiagnostic source title)

/-! ### Lines and their contexts -/

theorem ofText_eq (l : List Char) :
    Line.ofText l = match kind l with
      | .newFile => .newFile
      | .oldFile => .oldFile (fileName l)
      | .header => .hunk (hunkStart? l)
      | .other => .other l := by
  unfold Line.ofText
  split
  · simp [kind]
  · simp [kind, fileName, Text.before]
  · simp [kind]
  · rename_i h₁ h₂ h₃
    have hk : kind l = .other := by
      unfold kind
      rw [if_neg, if_neg, if_neg]
      · rintro ⟨s, rfl⟩
        exact h₃ s rfl
      · rintro ⟨s, rfl⟩
        exact h₂ s rfl
      · rintro ⟨s, rfl⟩
        exact h₁ s rfl
    rw [hk]

theorem isBoundary_eq_false {l : List Char} (h : kind l = .newFile ∨ kind l = .other) :
    isBoundary l = false := by
  rcases h with h | h <;> simp [isBoundary, h]

theorem isBoundary_eq_true {l : List Char} (h : kind l = .oldFile ∨ kind l = .header) :
    isBoundary l = true := by
  rcases h with h | h <;> simp [isBoundary, h]

theorem owned_of_isBoundary {l : List Char} (h : isBoundary l = true) (ls : List (List Char)) :
    owned (l :: ls) = [] := by
  simp [owned, h]

theorem owned_cons {l : List Char} (h : isBoundary l = false) (ls : List (List Char)) :
    owned (l :: ls) = if kind l = .other then l :: owned ls else owned ls := by
  by_cases hk : kind l = .other <;> simp [owned, h, hk]

theorem lastFile?_append (ls : List (List Char)) (l : List Char) :
    lastFile? (ls ++ [l]) = if kind l = .oldFile then some (fileName l) else lastFile? ls := by
  by_cases h : kind l = .oldFile <;> simp [lastFile?, h]

theorem viewsFrom_append (before ls : List (List Char)) (l : List Char) :
    viewsFrom before (ls ++ [l]) =
      (viewsFrom before ls).map (fun v => { v with behind := v.behind ++ [l] }) ++
        [⟨before ++ ls, l, []⟩] := by
  induction ls generalizing before with
  | nil => simp [viewsFrom]
  | cons m ls ih => simp [viewsFrom, ih]

theorem isSome_hunk? (v : View) : v.hunk?.isSome = (opening? v.before v.line).isSome := by
  simp [View.hunk?]

/-- A hunk is open behind a line if the line opens one, or if one was open and it is no boundary. -/
theorem inHunk_append (ls : List (List Char)) (l : List Char) :
    inHunk (ls ++ [l]) = (inHunk ls && !isBoundary l || (opening? ls l).isSome) := by
  unfold inHunk views
  rw [viewsFrom_append, List.any_append, List.any_map]
  simp only [Function.comp_def, isSome_hunk?, List.any_append, List.any_cons, List.any_nil,
    List.nil_append, Bool.or_false, Bool.not_or, Bool.not_false, Bool.and_true, ← Bool.and_assoc]
  rw [List.and_any_distrib_right]

theorem report_append (source title : String) (trailing : Trailing) (hs hs' : List Hunk) :
    report source title trailing (hs ++ hs') =
      report source title trailing hs ++ report source title trailing hs' := by
  simp [report]

/-! ### The scanner in its text -/

/-- What the lines before a scanner say of its state: the file that it is in, and whether it is in
a hunk. -/
def State.Reflects (before : List (List Char)) : State → Prop
  | .awaitingFile => lastFile? before = none ∧ inHunk before = false
  | .awaitingHunk file => lastFile? before = some file ∧ inHunk before = false
  | .accumulating file _ _ => lastFile? before = some file ∧ inHunk before = true

namespace Scanner

/-- The hunk that is open, when `ls` are the lines to come. -/
def pending? (s : Scanner) (ls : List (List Char)) : Option Hunk :=
  match s.state with
  | .accumulating file start body =>
    some { file, start, body := body ++ owned ls, closed := ls.any isBoundary }
  | _ => none

/-- The open hunk, or nothing, as it is reported. -/
def pendingReport (s : Scanner) (trailing : Trailing) (ls : List (List Char)) : List Diagnostic :=
  report s.source s.title trailing (s.pending? ls).toList

section Feed
variable {l : List Char} (s : Scanner)

theorem feed_newFile (h : kind l = .newFile) : s.feed l = (none, s) := by
  simp [feed, ofText_eq, h]

theorem feed_oldFile (h : kind l = .oldFile) :
    s.feed l = (s.flush.1, { s.flush.2 with state := .awaitingHunk (fileName l) }) := by
  simp [feed, ofText_eq, h]

theorem feed_header (h : kind l = .header) :
    s.feed l = (s.flush.1, s.flush.2.openHunk (hunkStart? l)) := by
  simp [feed, ofText_eq, h]

theorem feed_other (h : kind l = .other) : s.feed l = (none, s.take l) := by
  simp [feed, ofText_eq, h]

end Feed

/-- The record of a hunk that the text does not cut off, or that is to be flushed. -/
theorem toList_record? (s : Scanner) {trailing : Trailing} (h : Hunk)
    (hc : h.closed = true ∨ trailing = .flush) :
    (s.record? h.file h.start h.body).toList = report s.source s.title trailing [h] := by
  have hr : h.isReported trailing = decide (h.body ≠ []) := by simp [Hunk.isReported, hc]
  by_cases hb : h.body = []
  · simp [record?, report, hr, hb]
  · simp [record?, report, hr, hb, Hunk.toDiagnostic, Diagnostic.error, Diagnostic.untitled,
      Diagnostic.withTitle, Text.unlines]

/-- Before a boundary, flushing gives the report of the open hunk. -/
theorem toList_flush (s : Scanner) (trailing : Trailing) {l : List Char} (h : isBoundary l = true)
    (ls : List (List Char)) : s.flush.1.toList = s.pendingReport trailing (l :: ls) := by
  unfold flush pendingReport pending?
  cases hs : s.state with
  | accumulating file start body =>
    have hclosed : true = true ∨ trailing = .flush := .inl rfl
    simpa [owned_of_isBoundary h, h] using s.toList_record? ⟨file, start, body, true⟩ hclosed
  | awaitingFile => rfl
  | awaitingHunk file => rfl

/-- At the end of the text, finishing gives the report of the open hunk. -/
theorem toList_finish (s : Scanner) (trailing : Trailing) :
    (s.finish trailing).1.toList = s.pendingReport trailing [] := by
  unfold finish flush pendingReport pending?
  cases hs : s.state with
  | accumulating file start body =>
    cases trailing with
    | flush =>
      have hr := s.toList_record? ⟨file, start, body, false⟩ (.inr (rfl : Trailing.flush = .flush))
      simpa [owned] using hr
    | discard => simp [report, Hunk.isReported]
  | awaitingFile => cases trailing <;> rfl
  | awaitingHunk file => cases trailing <;> rfl

@[simp] theorem source_flush (s : Scanner) : s.flush.2.source = s.source := by
  unfold flush
  split <;> rfl

@[simp] theorem title_flush (s : Scanner) : s.flush.2.title = s.title := by
  unfold flush
  split <;> rfl

@[simp] theorem skipped_flush (s : Scanner) : s.flush.2.skipped = s.skipped := by
  unfold flush
  split <;> rfl

theorem source_title_feed (s : Scanner) (l : List Char) :
    (s.feed l).2.source = s.source ∧ (s.feed l).2.title = s.title := by
  cases h : kind l with
  | newFile => simp [s.feed_newFile h]
  | oldFile => simp [s.feed_oldFile h]
  | header =>
    rw [s.feed_header h]
    unfold openHunk skip
    split <;> simp
  | other =>
    rw [s.feed_other h]
    unfold take skip
    split <;> simp

theorem source_title_scan (s : Scanner) (ls : List (List Char)) :
    (s.scan ls).2.source = s.source ∧ (s.scan ls).2.title = s.title := by
  induction ls generalizing s with
  | nil => exact ⟨rfl, rfl⟩
  | cons l ls ih =>
    obtain ⟨hsource, htitle⟩ := s.source_title_feed l
    obtain ⟨hsource', htitle'⟩ := ih (s.feed l).2
    exact ⟨hsource'.trans hsource, htitle'.trans htitle⟩

/-- Whether the state of a flushed scanner fits its lines: it is in no hunk. -/
theorem state_flush {s : Scanner} {before : List (List Char)} (h : s.state.Reflects before) :
    s.flush.2.state =
      match lastFile? before with
      | some file => .awaitingHunk file
      | none => .awaitingFile := by
  unfold flush
  cases hs : s.state with
  | awaitingFile =>
    rw [hs] at h
    simp [h.1, hs]
  | awaitingHunk file =>
    rw [hs] at h
    simp [h.1, hs]
  | accumulating file start body =>
    rw [hs] at h
    simp [h.1]

/-- A hunk header opens the hunk that it opens in the text. -/
theorem openHunk_flush {s : Scanner} {before : List (List Char)} (h : s.state.Reflects before)
    {l : List Char} (hl : kind l = .header) :
    s.flush.2.openHunk (hunkStart? l) =
      match opening? before l with
      | some (file, start) => { s.flush.2 with state := .accumulating file start [] }
      | none => s.flush.2.skip := by
  unfold openHunk opening?
  rw [state_flush h, if_pos hl]
  cases lastFile? before with
  | none => rfl
  | some file => cases hunkStart? l <;> rfl

theorem opening?_eq_none {before : List (List Char)} {l : List Char} (h : kind l ≠ .header) :
    opening? before l = none := if_neg h

theorem opening?_fst {before : List (List Char)} {l : List Char} {file : List Char}
    {start : UInt32} (h : opening? before l = some (file, start)) :
    lastFile? before = some file := by
  unfold opening? at h
  split at h
  · cases hf : lastFile? before <;> cases hn : hunkStart? l <;> simp_all
  · simp at h

/-- What the lines say of a state that a line leaves as it is. -/
theorem reflects_append {before : List (List Char)} {state : State} {l : List Char}
    (h : state.Reflects before) (hl : kind l = .newFile ∨ kind l = .other) :
    state.Reflects (before ++ [l]) := by
  have hfile : lastFile? (before ++ [l]) = lastFile? before := by
    rw [lastFile?_append, if_neg (by rcases hl with hl | hl <;> simp [hl])]
  have hin : inHunk (before ++ [l]) = inHunk before := by
    rw [inHunk_append, isBoundary_eq_false hl,
      opening?_eq_none (by rcases hl with hl | hl <;> simp [hl])]
    simp
  cases state <;> simpa [State.Reflects, hfile, hin] using h

/-- The state of a scanner keeps reflecting the lines before it. -/
theorem reflects_feed {s : Scanner} {before : List (List Char)} (h : s.state.Reflects before)
    (l : List Char) : (s.feed l).2.state.Reflects (before ++ [l]) := by
  cases hl : kind l with
  | newFile =>
    rw [s.feed_newFile hl]
    exact reflects_append h (.inl hl)
  | oldFile =>
    rw [s.feed_oldFile hl]
    refine ⟨?_, ?_⟩
    · rw [lastFile?_append, if_pos hl]
    · rw [inHunk_append, isBoundary_eq_true (.inl hl), opening?_eq_none (by simp [hl])]
      simp
  | header =>
    have hfile : lastFile? (before ++ [l]) = lastFile? before := by
      rw [lastFile?_append, if_neg (by simp [hl])]
    have hin : inHunk (before ++ [l]) = (opening? before l).isSome := by
      rw [inHunk_append, isBoundary_eq_true (.inr hl)]
      simp
    rw [s.feed_header hl, openHunk_flush h hl]
    cases ho : opening? before l with
    | none =>
      rw [ho] at hin
      simp only [skip, state_flush h]
      cases hf : lastFile? before with
      | none => exact ⟨hfile.trans hf, hin⟩
      | some file => exact ⟨hfile.trans hf, hin⟩
    | some opened =>
      rw [ho] at hin
      exact ⟨hfile.trans (opening?_fst ho), hin⟩
  | other =>
    have hs := reflects_append h (.inr hl)
    rw [s.feed_other hl]
    unfold take skip
    cases hstate : s.state with
    | accumulating file start body =>
      rw [hstate] at hs
      exact hs
    | awaitingFile => simpa only [hstate] using hs
    | awaitingHunk file => simpa only [hstate] using hs

/-- A line completes the open hunk, or changes it, and may open another one. -/
theorem report_feed {s : Scanner} {before : List (List Char)} (h : s.state.Reflects before)
    (trailing : Trailing) (l : List Char) (ls : List (List Char)) :
    (s.feed l).1.toList ++ (s.feed l).2.pendingReport trailing ls =
      s.pendingReport trailing (l :: ls) ++
        report s.source s.title trailing (View.hunk? ⟨before, l, ls⟩).toList := by
  have hnone (hl : kind l ≠ .header) : View.hunk? ⟨before, l, ls⟩ = none := by
    simp [View.hunk?, opening?_eq_none hl]
  cases hl : kind l with
  | newFile =>
    rw [s.feed_newFile hl, hnone (by simp [hl])]
    have hb := isBoundary_eq_false (.inl hl)
    simp [pendingReport, pending?, owned_cons hb, hl, hb, report]
  | oldFile =>
    rw [s.feed_oldFile hl, hnone (by simp [hl]),
      s.toList_flush trailing (isBoundary_eq_true (.inl hl)) ls]
    rfl
  | header =>
    rw [s.feed_header hl, s.toList_flush trailing (isBoundary_eq_true (.inr hl)) ls,
      openHunk_flush h hl]
    congr 1
    cases ho : opening? before l with
    | none =>
      have hp : s.flush.2.skip.pending? ls = none := by
        simp only [pending?, skip, state_flush h]
        cases lastFile? before <;> rfl
      have hv : View.hunk? ⟨before, l, ls⟩ = none := by simp [View.hunk?, ho]
      simp [pendingReport, hp, hv, report]
    | some opened =>
      simp [View.hunk?, ho, pendingReport, pending?]
  | other =>
    rw [s.feed_other hl, hnone (by simp [hl])]
    have hb := isBoundary_eq_false (.inr hl)
    unfold pendingReport pending? take skip
    cases hs : s.state <;> simp [owned_cons hb, hl, hb, report]

/-- A line is skipped when it is stray, or a header that opens no hunk. -/
theorem skipped_feed {s : Scanner} {before : List (List Char)} (h : s.state.Reflects before)
    (l : List Char) (ls : List (List Char)) :
    (s.feed l).2.skipped =
      s.skipped + ((if View.isStray ⟨before, l, ls⟩ then 1 else 0) +
        if View.isIdleHeader ⟨before, l, ls⟩ then 1 else 0) := by
  unfold View.isStray View.isIdleHeader
  cases hl : kind l with
  | newFile => simp [s.feed_newFile hl]
  | oldFile => simp [s.feed_oldFile hl]
  | header =>
    rw [s.feed_header hl, openHunk_flush h hl]
    cases ho : opening? before l <;> simp [View.hunk?, ho, skip]
  | other =>
    rw [s.feed_other hl]
    unfold take skip
    cases hs : s.state with
    | accumulating file start body =>
      rw [hs] at h
      simp [h.2]
    | awaitingFile =>
      rw [hs] at h
      simp [h.2]
    | awaitingHunk file =>
      rw [hs] at h
      simp [h.2]

/-- Scanning the lines behind some others: the open hunk and the hunks of these lines are
reported, and the lines that no hunk has a use for are counted. -/
theorem scanAll_eq {s : Scanner} {before : List (List Char)} (h : s.state.Reflects before)
    (trailing : Trailing) (ls : List (List Char)) :
    (s.scanAll trailing ls).1 =
        s.pendingReport trailing ls ++
          report s.source s.title trailing ((viewsFrom before ls).filterMap View.hunk?) ∧
      (s.scanAll trailing ls).2.skipped =
        s.skipped + ((viewsFrom before ls).countP View.isStray +
          (viewsFrom before ls).countP View.isIdleHeader) := by
  induction ls generalizing s before with
  | nil =>
    rw [scanAll_nil, s.toList_finish]
    exact ⟨by simp [viewsFrom, report], rfl⟩
  | cons l ls ih =>
    obtain ⟨hrecords, hskipped⟩ := ih (reflects_feed h l)
    obtain ⟨hsource, htitle⟩ := s.source_title_feed l
    rw [hsource, htitle] at hrecords
    rw [scanAll_cons]
    constructor
    · dsimp only
      rw [hrecords, ← List.append_assoc, report_feed h trailing l ls, List.append_assoc,
        ← report_append]
      cases hv : View.hunk? ⟨before, l, ls⟩ <;> simp [viewsFrom, hv]
    · dsimp only
      rw [hskipped, skipped_feed h l ls, viewsFrom, List.countP_cons, List.countP_cons]
      omega

end Scanner

end LintReport.Diff

namespace LintReport.DiffParser

open Diff

/-- A diff parser reports the hunks of the text, and skips the lines that no hunk owns and the
headers that open none. -/
theorem records_eq_report_hunks (p : DiffParser) (text : List Char) :
    (Parser.diff p).records (Text.Utf8.encode text) =
        report p.source p.title p.trailing (hunks (Text.lines text)) ∧
      ((Parser.diff p).stream (Text.Utf8.encode text)).exhausted.skipped =
        (views (Text.lines text)).countP View.isStray +
          (views (Text.lines text)).countP View.isIdleHeader := by
  have hnew : p.scanner.state.Reflects [] := ⟨rfl, rfl⟩
  obtain ⟨hrecords, hskipped⟩ := Scanner.scanAll_eq hnew p.trailing (Text.lines text)
  rw [records_encode, skipped_exhausted_encode]
  refine ⟨hrecords, ?_⟩
  rw [hskipped]
  exact Nat.zero_add _

end LintReport.DiffParser
