import LintReport.Proofs.Diff.Transcript
import LintReport.Proofs.Fields
import LintReport.Proofs.Lines
import LintReport.Proofs.Numerals

/-! Printed diffs and what a parser makes of them. A body line carries its mark in front, and the
scanner tells lines apart by their first characters alone. So a removed line that itself begins
with two hyphens and a space is taken for a file header, and an added one that begins with two plus
signs and a space for the name of the new file. A printed diff is read back if and only if it has
no such line. -/

namespace LintReport.Diff

open Text (decimal unlines withoutReturn)

/-- A line in the body of a hunk: kept, added, removed, or a remark on the line before it. -/
structure IsBodyLine (l : List Char) : Prop where
  marked : l.head? ∈ [some ' ', some '+', some '-', some '\\']
  newline_free : '\n' ∉ l
  no_return : l.getLast? ≠ some '\r'

/-- A hunk before it is printed: where it begins in the old file, how many lines it says that it
has, its place in the new file, and its lines. -/
structure PrintedHunk where
  start : UInt32
  count : Nat
  newStart : Nat
  newCount : Nat
  body : List (List Char)
  body_ne_nil : body ≠ []
  isBodyLine : ∀ l ∈ body, IsBodyLine l

/-- The hunks of one file. -/
structure PrintedFile where
  name : List Char
  stamp : List Char
  hunks : List PrintedHunk
  tab_free : '\t' ∉ name
  newline_free : '\n' ∉ name
  stamp_newline_free : '\n' ∉ stamp

def range (start count : Nat) : List Char := decimal start ++ ',' :: decimal count

def PrintedHunk.header (h : PrintedHunk) : List Char :=
  '@' :: '@' :: ' ' :: '-' :: (range h.start.toNat h.count ++
    ' ' :: '+' :: (range h.newStart h.newCount ++ [' ', '@', '@']))

def PrintedHunk.lines (h : PrintedHunk) : List (List Char) := h.header :: h.body

def PrintedFile.oldHeader (f : PrintedFile) : List Char :=
  '-' :: '-' :: '-' :: ' ' :: (f.name ++ '\t' :: f.stamp)

def PrintedFile.newHeader (f : PrintedFile) : List Char :=
  '+' :: '+' :: '+' :: ' ' :: (f.name ++ '\t' :: f.stamp)

def PrintedFile.lines (f : PrintedFile) : List (List Char) :=
  f.oldHeader :: f.newHeader :: f.hunks.flatMap PrintedHunk.lines

/-- A diff of some files, as a formatter prints it. -/
def print (fs : List PrintedFile) : List Char := unlines (fs.flatMap PrintedFile.lines)

/-- The finding that a hunk stands for. -/
def PrintedHunk.toDiagnostic (source title : String) (name : List Char) (h : PrintedHunk) :
    Diagnostic where
  severity := .error
  file := String.ofList name
  line := max h.start 1
  column := 1
  source := source
  title := title
  message := String.ofList (unlines h.body)

def PrintedFile.diagnostics (source title : String) (f : PrintedFile) : List Diagnostic :=
  f.hunks.map (PrintedHunk.toDiagnostic source title f.name)

/-- Whether a line passes for the header of a file, or for the name of the new one. -/
def PosesAsHeader (l : List Char) : Prop := "--- ".toList <+: l ∨ "+++ ".toList <+: l

/-- Whether no body line of a file passes for a header. -/
def PrintedFile.IsPlain (f : PrintedFile) : Prop :=
  ∀ h ∈ f.hunks, ∀ l ∈ h.body, ¬ PosesAsHeader l

/-! ### Printed lines -/

/-- A header says where its hunk begins before the first comma; the rest of it does not matter. -/
theorem hunkStart?_range (start : Nat) (s : List Char) :
    hunkStart? ('@' :: '@' :: ' ' :: '-' :: (decimal start ++ ',' :: s)) =
      if start < UInt32.size then some (Text.oneBased (UInt32.ofNat start)) else none := by
  have hblank : ∀ c ∈ '-' :: (decimal start ++ [',']), Text.isBlank c = false := by
    intro c hc
    simp only [List.mem_cons, List.mem_append, List.not_mem_nil, or_false] at hc
    rcases hc with rfl | hc | rfl
    · rfl
    · exact Text.isBlank_of_isDigit (Text.isDigit_of_mem_decimal hc)
    · rfl
  have hleading : Text.leadingWord ('-' :: (decimal start ++ ',' :: s)) =
      '-' :: decimal start ++ ',' :: Text.leadingWord s := by
    have h := Text.leadingWord_append hblank s
    simpa using h
  have hrange : (Text.words ('@' :: '@' :: ' ' :: '-' :: (decimal start ++ ',' :: s)))[1]? =
      some ('-' :: decimal start ++ ',' :: Text.leadingWord s) := by
    have hmarks : ∀ c ∈ ['@', '@'], Text.isBlank c = false := by simp [Text.isBlank]
    have hspace : ∀ c ∈ [' '], Text.isBlank c = true := List.forall_mem_singleton.2 rfl
    have hwords : Text.words ('@' :: '@' :: ' ' :: '-' :: (decimal start ++ ',' :: s)) =
        ['@', '@'] :: Text.words ('-' :: (decimal start ++ ',' :: s)) := by
      rw [← Text.words_blank_append hspace]
      exact Text.words_word_append (by simp) hmarks fun c hc => Option.some.inj hc ▸ rfl
    rw [hwords, List.getElem?_cons_succ, Text.words_cons rfl, List.getElem?_cons_zero, hleading]
  have hcomma : ',' ∉ '-' :: decimal start := by
    simpa using Text.not_mem_decimal (c := ',') rfl start
  unfold hunkStart?
  rw [hrange]
  simp only [Option.bind_eq_bind, Option.bind_some, Text.before_append hcomma,
    withoutSign, Text.word32?_decimal]
  split <;> rfl

theorem hunkStart?_header (h : PrintedHunk) : hunkStart? h.header = some (max h.start 1) := by
  rw [PrintedHunk.header, range, List.append_assoc, List.cons_append, hunkStart?_range,
    if_pos h.start.toNat_lt, UInt32.ofNat_toNat]
  rfl

theorem kind_header (h : PrintedHunk) : kind h.header = .header := by
  simp [kind, PrintedHunk.header]

theorem kind_oldHeader (f : PrintedFile) : kind f.oldHeader = .oldFile := by
  simp [kind, PrintedFile.oldHeader]

theorem kind_newHeader (f : PrintedFile) : kind f.newHeader = .newFile := by
  simp [kind, PrintedFile.newHeader]

theorem fileName_oldHeader (f : PrintedFile) : fileName f.oldHeader = f.name := by
  rw [fileName, PrintedFile.oldHeader]
  exact Text.before_append f.tab_free f.stamp

theorem IsBodyLine.kind_eq_other_iff {l : List Char} (h : IsBodyLine l) :
    kind l = .other ↔ ¬ PosesAsHeader l := by
  have hat : ¬ "@@".toList <+: l := by
    rintro ⟨m, rfl⟩
    have := h.marked
    simp at this
  unfold kind PosesAsHeader
  rw [if_neg hat]
  split
  · rename_i hnew
    exact iff_of_false nofun (not_not_intro (.inr hnew))
  · rename_i hnew
    split
    · rename_i hold
      exact iff_of_false nofun (not_not_intro (.inl hold))
    · rename_i hold
      exact iff_of_true rfl (not_or.2 ⟨hold, hnew⟩)

/-! ### Reading a printed diff -/

/-- A file as its lines are read back, without a carriage return at the end of its stamp. -/
def PrintedFile.readBack (f : PrintedFile) : PrintedFile :=
  { f with
    stamp := withoutReturn f.stamp
    stamp_newline_free := fun h => f.stamp_newline_free (Text.mem_of_mem_withoutReturn h) }

theorem withoutReturn_tab (s : List Char) : withoutReturn ('\t' :: s) = '\t' :: withoutReturn s := by
  cases s with
  | nil => rfl
  | cons c s => exact Text.withoutReturn_append (l := ['\t']) (List.cons_ne_nil c s)

theorem withoutReturn_header (h : PrintedHunk) : withoutReturn h.header = h.header := by
  apply Text.withoutReturn_eq_self
  have hlast : h.header.getLast? = some '@' := by
    have hsplit : h.header = ('@' :: '@' :: ' ' :: '-' :: (range h.start.toNat h.count ++
        ' ' :: '+' :: range h.newStart h.newCount)) ++ [' ', '@', '@'] := by
      simp [PrintedHunk.header]
    rw [hsplit, List.getLast?_append]
    rfl
  rw [hlast]
  decide

theorem withoutReturn_body (h : PrintedHunk) : h.body.map withoutReturn = h.body := by
  have hl : ∀ l ∈ h.body, withoutReturn l = id l := fun l hl =>
    Text.withoutReturn_eq_self (h.isBodyLine l hl).no_return
  rw [List.map_congr_left hl, List.map_id]

theorem map_withoutReturn_lines (f : PrintedFile) :
    f.lines.map withoutReturn = f.readBack.lines := by
  have hstamp (a : List Char) : withoutReturn (a ++ f.name ++ '\t' :: f.stamp) =
      a ++ f.name ++ '\t' :: withoutReturn f.stamp := by
    rw [Text.withoutReturn_append (List.cons_ne_nil _ _), withoutReturn_tab]
  have hold : withoutReturn f.oldHeader = f.readBack.oldHeader := hstamp ['-', '-', '-', ' ']
  have hnew : withoutReturn f.newHeader = f.readBack.newHeader := hstamp ['+', '+', '+', ' ']
  have hhunk (h : PrintedHunk) : h.lines.map withoutReturn = h.lines := by
    rw [PrintedHunk.lines, List.map_cons, withoutReturn_header, withoutReturn_body]
  simp only [PrintedFile.lines, List.map_cons, List.map_flatMap, hhunk, hold, hnew]
  rfl

theorem newline_not_mem_range (start count : Nat) : '\n' ∉ range start count := by
  have hn := Text.not_mem_decimal (c := '\n') rfl
  simp [range, hn]

theorem newline_not_mem_of_mem_lines {f : PrintedFile} {l : List Char} (hl : l ∈ f.lines) :
    '\n' ∉ l := by
  simp only [PrintedFile.lines, List.mem_cons, List.mem_flatMap, PrintedHunk.lines] at hl
  rcases hl with rfl | rfl | ⟨h, -, rfl | hl⟩
  · simp [PrintedFile.oldHeader, f.newline_free, f.stamp_newline_free]
  · simp [PrintedFile.newHeader, f.newline_free, f.stamp_newline_free]
  · simp [PrintedHunk.header, newline_not_mem_range]
  · exact (h.isBodyLine l hl).newline_free

theorem lines_print (fs : List PrintedFile) :
    Text.lines (print fs) = (fs.map PrintedFile.readBack).flatMap PrintedFile.lines := by
  have hfree : ∀ l ∈ fs.flatMap PrintedFile.lines, '\n' ∉ l := by
    intro l hl
    obtain ⟨f, -, hl⟩ := List.mem_flatMap.1 hl
    exact newline_not_mem_of_mem_lines hl
  rw [print, Text.lines_unlines hfree, List.map_flatMap, List.flatMap_map]
  simp only [map_withoutReturn_lines]

/-! ### Scanning a plain diff -/

namespace Scanner

/-- What the lines give if the hunks open before and behind them are both flushed: the record of
the one before, and then the records `ds`. -/
def Yields (s : Scanner) (ls : List (List Char)) (ds : List Diagnostic) : Prop :=
  (s.scan ls).1 ++ (s.scan ls).2.flush.1.toList = s.flush.1.toList ++ ds

theorem yields_nil (s : Scanner) : s.Yields [] [] := by
  simp [Yields]

theorem Yields.append {s : Scanner} {ls ms : List (List Char)} {ds es : List Diagnostic}
    (h : s.Yields ls ds) (h' : (s.scan ls).2.Yields ms es) : s.Yields (ls ++ ms) (ds ++ es) := by
  unfold Yields at *
  rw [scan_append, List.append_assoc]
  dsimp only
  rw [h', ← List.append_assoc, h, List.append_assoc]

/-- The lines of an open hunk are added to its body. -/
theorem scan_body {s : Scanner} {file : List Char} {start : UInt32} {body : List (List Char)}
    (hs : s.state = .accumulating file start body) {ls : List (List Char)}
    (h : ∀ l ∈ ls, kind l = .other) :
    s.scan ls = ([], { s with state := .accumulating file start (body ++ ls) }) := by
  induction ls generalizing s body with
  | nil =>
    rw [scan_nil, List.append_nil, ← hs]
  | cons l ls ih =>
    have hl : kind l = .other := h l List.mem_cons_self
    have hls := fun m hm => h m (List.mem_cons_of_mem l hm)
    have htake : s.take l = { s with state := .accumulating file start (body ++ [l]) } := by
      simp only [take, hs]
    have hstate : (s.take l).state = .accumulating file start (body ++ [l]) := by rw [htake]
    have htail := ih hstate hls
    rw [scan_cons, s.feed_other hl]
    dsimp only
    rw [htail, htake]
    simp

variable {s : Scanner} {name : List Char}

/-- In a file, a printed hunk ends the one before it and is left open. -/
theorem scan_hunk (hs : s.flush.2.state = .awaitingHunk name) (h : PrintedHunk)
    (hp : ∀ l ∈ h.body, kind l = .other) :
    s.scan h.lines =
      (s.flush.1.toList,
        { s.flush.2 with state := .accumulating name (max h.start 1) h.body }) := by
  have hfeed : s.feed h.header =
      (s.flush.1, { s.flush.2 with state := .accumulating name (max h.start 1) [] }) := by
    rw [s.feed_header (kind_header h), hunkStart?_header]
    simp only [openHunk, hs]
  rw [PrintedHunk.lines, scan_cons, hfeed]
  dsimp only
  rw [scan_body rfl hp]
  simp

theorem yields_hunk (hs : s.flush.2.state = .awaitingHunk name) (h : PrintedHunk)
    (hp : ∀ l ∈ h.body, kind l = .other) :
    s.Yields h.lines [h.toDiagnostic s.source s.title name] := by
  have hflush (t : Scanner) (ht : t.state = .accumulating name (max h.start 1) h.body) :
      t.flush.1 = some (h.toDiagnostic t.source t.title name) := by
    rw [flush, ht]
    dsimp only
    rw [record?, if_neg h.body_ne_nil]
    rfl
  have hlast := hflush { s.flush.2 with state := .accumulating name (max h.start 1) h.body } rfl
  rw [s.source_flush, s.title_flush] at hlast
  rw [Yields, scan_hunk hs h hp]
  dsimp only
  rw [hlast]
  rfl

theorem yields_hunks (hs : s.flush.2.state = .awaitingHunk name) {hunks : List PrintedHunk}
    (hp : ∀ h ∈ hunks, ∀ l ∈ h.body, kind l = .other) :
    s.Yields (hunks.flatMap PrintedHunk.lines)
      (hunks.map (PrintedHunk.toDiagnostic s.source s.title name)) := by
  induction hunks generalizing s with
  | nil => exact s.yields_nil
  | cons h hunks ih =>
    have hplain := hp h List.mem_cons_self
    have hnext : (s.scan h.lines).2.flush.2.state = .awaitingHunk name := by
      rw [scan_hunk hs h hplain]
      rfl
    have htail := ih hnext fun g hg => hp g (List.mem_cons_of_mem h hg)
    obtain ⟨hsource, htitle⟩ := s.source_title_scan h.lines
    rw [hsource, htitle] at htail
    rw [List.flatMap_cons, List.map_cons]
    exact (yields_hunk hs h hplain).append htail

end Scanner

theorem PrintedFile.IsPlain.kind_eq_other {f : PrintedFile} (hf : f.IsPlain) :
    ∀ h ∈ f.hunks, ∀ l ∈ h.body, kind l = .other := by
  intro h hh l hl
  exact (h.isBodyLine l hl).kind_eq_other_iff.2 (hf h hh l hl)

namespace Scanner

theorem yields_file (s : Scanner) {f : PrintedFile} (hf : f.IsPlain) :
    s.Yields f.lines (f.diagnostics s.source s.title) := by
  have hscan : s.scan [f.oldHeader, f.newHeader] =
      (s.flush.1.toList, { s.flush.2 with state := .awaitingHunk f.name }) := by
    rw [scan_cons, s.feed_oldFile (kind_oldHeader f), scan_cons, feed_newFile _ (kind_newHeader f),
      fileName_oldHeader]
    simp
  have hheaders : s.Yields [f.oldHeader, f.newHeader] [] := by
    rw [Yields, hscan]
    rfl
  have hstate : (s.scan [f.oldHeader, f.newHeader]).2.flush.2.state = .awaitingHunk f.name := by
    rw [hscan]
    rfl
  have hhunks := yields_hunks hstate hf.kind_eq_other
  obtain ⟨hsource, htitle⟩ := s.source_title_scan [f.oldHeader, f.newHeader]
  rw [hsource, htitle] at hhunks
  exact hheaders.append hhunks

theorem yields_files (s : Scanner) {fs : List PrintedFile} (hfs : ∀ f ∈ fs, f.IsPlain) :
    s.Yields (fs.flatMap PrintedFile.lines)
      (fs.flatMap (PrintedFile.diagnostics s.source s.title)) := by
  induction fs generalizing s with
  | nil => exact s.yields_nil
  | cons f fs ih =>
    have htail := ih (s.scan f.lines).2 fun g hg => hfs g (List.mem_cons_of_mem f hg)
    obtain ⟨hsource, htitle⟩ := s.source_title_scan f.lines
    rw [hsource, htitle] at htail
    rw [List.flatMap_cons, List.flatMap_cons]
    exact (s.yields_file (hfs f List.mem_cons_self)).append htail

end Scanner

/-! ### What the records say of a printed diff -/

/-- All body lines of some files. -/
def bodyLines (fs : List PrintedFile) : List (List Char) :=
  fs.flatMap fun f => f.hunks.flatMap (·.body)

theorem transcript_diagnostics (source title : String) (fs : List PrintedFile) :
    transcript (fs.flatMap (PrintedFile.diagnostics source title)) = unlines (bodyLines fs) := by
  have hfile (f : PrintedFile) :
      transcript (f.diagnostics source title) = unlines (f.hunks.flatMap (·.body)) := by
    simp [transcript, PrintedFile.diagnostics, unlines, List.flatMap_map, List.flatMap_assoc,
      PrintedHunk.toDiagnostic]
  rw [transcript, List.flatMap_assoc, bodyLines, unlines, List.flatMap_assoc]
  exact congrArg (fs.flatMap ·) (funext hfile)

theorem others_lines (fs : List PrintedFile) :
    others (fs.flatMap PrintedFile.lines) = others (bodyLines fs) := by
  have hhunk (h : PrintedHunk) : others h.lines = others h.body := by
    simp [others, PrintedHunk.lines, kind_header]
  have hfile (f : PrintedFile) : others f.lines = others (f.hunks.flatMap (·.body)) := by
    have hnames : others f.lines = others (f.hunks.flatMap PrintedHunk.lines) := by
      simp [others, PrintedFile.lines, kind_oldHeader, kind_newHeader]
    rw [hnames, others, others, List.filter_flatMap, List.filter_flatMap]
    exact congrArg (f.hunks.flatMap ·) (funext hhunk)
  rw [others, others, bodyLines, List.filter_flatMap, List.filter_flatMap]
  exact congrArg (fs.flatMap ·) (funext hfile)

theorem bodyLines_readBack (fs : List PrintedFile) :
    bodyLines (fs.map PrintedFile.readBack) = bodyLines fs := List.flatMap_map ..

end LintReport.Diff

namespace LintReport.DiffParser

open Diff

/-- A diff parser that flushes reads a printed diff back, with one record for each hunk, if and
only if no line of a hunk passes for a header. -/
theorem records_print_iff (name source title : String) (fs : List PrintedFile) :
    (Parser.diff { name, source, title, trailing := .flush }).records
        (Text.Utf8.encode (print fs)) =
      fs.flatMap (PrintedFile.diagnostics source title) ↔ ∀ f ∈ fs, f.IsPlain := by
  have hdiagnostics : fs.flatMap (PrintedFile.diagnostics source title) =
      (fs.map PrintedFile.readBack).flatMap (PrintedFile.diagnostics source title) := by
    rw [List.flatMap_map]
    rfl
  rw [records_encode, lines_print, hdiagnostics]
  constructor
  · intro h
    have hsaid := Scanner.transcript_scanAll (.new source title) .flush
      ((fs.map PrintedFile.readBack).flatMap PrintedFile.lines)
    have hall : ∀ l ∈ bodyLines fs, decide (kind l = .other) = true := by
      apply Text.forall_of_length_unlines_le
      rw [← bodyLines_readBack, ← transcript_diagnostics source title, ← h]
      rw [others_lines] at hsaid
      exact hsaid.length_le
    intro f hf g hg l hl
    have hmem : l ∈ bodyLines fs := List.mem_flatMap.2 ⟨f, hf, List.mem_flatMap.2 ⟨g, hg, hl⟩⟩
    exact (g.isBodyLine l hl).kind_eq_other_iff.1 (by simpa using hall l hmem)
  · intro h
    have hplain : ∀ f ∈ fs.map PrintedFile.readBack, f.IsPlain := by
      intro f hf
      obtain ⟨g, hg, rfl⟩ := List.mem_map.1 hf
      exact h g hg
    exact Scanner.yields_files (.new source title) hplain

/-- A file with two hunks, in the first of which a comment is removed. -/
def removedComment : PrintedFile where
  name := "q.sql".toList
  stamp := "1".toList
  hunks := [
    { start := 7, count := 2, newStart := 7, newCount := 1
      body := ["--- drop it".toList, " keep".toList]
      body_ne_nil := by decide
      isBodyLine := by
        simp only [List.forall_mem_cons]
        exact ⟨⟨by decide, by decide, by decide⟩, ⟨by decide, by decide, by decide⟩, nofun⟩ },
    { start := 20, count := 1, newStart := 19, newCount := 2
      body := [" old".toList, "+new".toList]
      body_ne_nil := by decide
      isBodyLine := by
        simp only [List.forall_mem_cons]
        exact ⟨⟨by decide, by decide, by decide⟩, ⟨by decide, by decide, by decide⟩, nofun⟩ }]
  tab_free := by decide
  newline_free := by decide
  stamp_newline_free := by decide

/-- The first hunk is lost, and the second is reported for a file that does not exist. -/
theorem records_removedComment :
    (Parser.diff ⟨"black-diff", "black", "Black alteration", .flush⟩).records
        (Text.Utf8.encode (print [removedComment])) =
      [⟨.error, "drop it", 20, 1, "black", "Black alteration", " old\n+new\n"⟩] ∧
    [removedComment].flatMap (PrintedFile.diagnostics "black" "Black alteration") =
      [⟨.error, "q.sql", 7, 1, "black", "Black alteration", "--- drop it\n keep\n"⟩,
        ⟨.error, "q.sql", 20, 1, "black", "Black alteration", " old\n+new\n"⟩] := by
  constructor
  · rw [records_encode, lines_print]
    rfl
  · rfl

end LintReport.DiffParser
