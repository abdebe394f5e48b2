import LintReport.Proofs.Diff.Segmentation
import LintReport.Proofs.Lines

/-! The messages of a diff's records, one behind the other. They are made of lines of the diff, in
their order and each used once at most; file headers, hunk headers and the lines that name a new
file are not among them. -/

namespace LintReport.Diff

open Text (unlines unlines_append)

def transcript (ds : List Diagnostic) : List Char := ds.flatMap (·.message.toList)

/-- The lines that can be part of a message. -/
def others (ls : List (List Char)) : List (List Char) := ls.filter (kind · = .other)

@[simp] theorem transcript_append (ds es : List Diagnostic) :
    transcript (ds ++ es) = transcript ds ++ transcript es := List.flatMap_append

theorem others_cons (l : List Char) (ls : List (List Char)) :
    others (l :: ls) = others [l] ++ others ls := List.filter_append [l] ls

namespace Scanner

/-- What the open hunk would say. -/
def held (s : Scanner) : List Char :=
  match s.state with
  | .accumulating _ _ body => unlines body
  | _ => []

theorem transcript_flush (s : Scanner) : transcript s.flush.1.toList = s.held := by
  unfold flush held
  cases hs : s.state with
  | accumulating file start body =>
    by_cases hb : body = []
    · simp [record?, hb, transcript, unlines]
    · simp [record?, hb, transcript, Diagnostic.error, Diagnostic.untitled, Diagnostic.withTitle]
  | awaitingFile => rfl
  | awaitingHunk file => rfl

theorem held_openHunk_flush (s : Scanner) (start : Option UInt32) :
    (s.flush.2.openHunk start).held = [] := by
  have hflush : s.flush.2.held = [] := by
    unfold flush held
    cases hs : s.state <;> simp [hs]
  unfold openHunk
  split
  · rfl
  · exact hflush

/-- A line moves what is held into a record, or adds itself to it, or is lost. -/
theorem transcript_feed (s : Scanner) (l : List Char) :
    (transcript (s.feed l).1.toList ++ (s.feed l).2.held).Sublist
      (s.held ++ unlines (others [l])) := by
  cases hl : kind l with
  | newFile =>
    rw [s.feed_newFile hl]
    exact List.sublist_append_left _ _
  | oldFile =>
    rw [s.feed_oldFile hl]
    dsimp only
    rw [s.transcript_flush]
    exact (List.Sublist.refl _).append (List.nil_sublist _)
  | header =>
    rw [s.feed_header hl]
    dsimp only
    rw [s.transcript_flush, s.held_openHunk_flush]
    exact (List.Sublist.refl _).append (List.nil_sublist _)
  | other =>
    have hothers : others [l] = [l] := by simp [others, hl]
    rw [s.feed_other hl, hothers]
    unfold take
    cases hs : s.state with
    | accumulating file start body =>
      simp only [held, hs, unlines_append]
      exact List.Sublist.refl _
    | awaitingFile => simp [held, hs, skip, transcript]
    | awaitingHunk file => simp [held, hs, skip, transcript]

theorem transcript_scanAll (s : Scanner) (trailing : Trailing) (ls : List (List Char)) :
    (transcript (s.scanAll trailing ls).1).Sublist (s.held ++ unlines (others ls)) := by
  induction ls generalizing s with
  | nil =>
    have hend : (transcript (s.finish trailing).1.toList).Sublist s.held := by
      cases trailing with
      | flush => exact s.transcript_flush ▸ List.Sublist.refl _
      | discard => exact List.nil_sublist _
    rw [scanAll_nil]
    exact hend.trans (List.sublist_append_left _ _)
  | cons l ls ih =>
    rw [scanAll_cons, others_cons, unlines_append, transcript_append, ← List.append_assoc]
    have hrest := (ih (s.feed l).2).append_left (transcript (s.feed l).1.toList)
    rw [← List.append_assoc] at hrest
    exact hrest.trans ((s.transcript_feed l).append_right _)

end Scanner

end LintReport.Diff
