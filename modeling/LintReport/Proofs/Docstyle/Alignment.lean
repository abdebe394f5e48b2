import LintReport.Proofs.Docstyle.Reading

/-! Two-line records among lines that are none. The lines are taken in pairs from a header on, so a
header without a readable number takes the next line with it. If the messages are indented, as they
are printed, then each pair is read for itself, whatever its first line is. Other lines between the
records change nothing as long as each header among them finds its message among them; one that does
not takes the header of the next record for its message, and that record is lost. -/

namespace LintReport.Parser.Docstyle

/-! ### Pairs with indented messages -/

/-- A header without a number that can be read. -/
def IsUnnumbered (l : List Char) : Prop := ∃ h : Header, h.line = l ∧ h.row? = none

theorem any_splitHeader?_iff {l : List Char} :
    (splitHeader? l).any (fun location => (Text.position? location.2).isNone) ↔
      IsUnnumbered l := by
  simp only [Option.any_eq_true, Prod.exists, splitHeader?_eq_some_iff, Option.isNone_iff_eq_none]
  constructor
  · rintro ⟨_, _, ⟨h, hline, -, rfl⟩, hrow⟩
    exact ⟨h, hline, hrow⟩
  · rintro ⟨h, hline, hrow⟩
    exact ⟨h.file, h.number, ⟨h, hline, rfl, rfl⟩, hrow⟩

instance (l : List Char) : Decidable (IsUnnumbered l) := decidable_of_iff _ any_splitHeader?_iff

theorem Header.isUnnumbered_line_iff {h : Header} : IsUnnumbered h.line ↔ h.row? = none := by
  constructor
  · rintro ⟨g, hline, hrow⟩
    rwa [← Header.line_injective hline]
  · exact fun hrow => ⟨h, rfl, hrow⟩

/-- Any line, and one behind it that is empty or begins with white space. -/
structure IndentedPair where
  header : List Char
  message : List Char
  header_free : '\n' ∉ header
  message_free : '\n' ∉ message
  indented : ∀ c ∈ message.head?, Text.isBlank c = true

namespace IndentedPair

def lines (p : IndentedPair) : List (List Char) := [p.header, p.message]

/-- The record of a pair, if its first line is a header with a number. -/
def record? (p : IndentedPair) : Option Diagnostic :=
  (splitHeader? p.header).bind fun location => (Text.position? location.2).map fun row =>
    .error (String.ofList location.1) row 1 "pydocstyle" (String.ofList (Text.trim p.message))

theorem record?_eq_some_iff {p : IndentedPair} {d : Diagnostic} :
    p.record? = some d ↔
      ∃ (h : Header) (row : UInt32), h.line = p.header ∧ Text.position? h.number = some row ∧
        d = .error (String.ofList h.file) row 1 "pydocstyle" (String.ofList (Text.trim p.message)) := by
  simp only [record?, Option.bind_eq_some_iff, Option.map_eq_some_iff, Prod.exists,
    splitHeader?_eq_some_iff]
  constructor
  · rintro ⟨_, _, ⟨h, hline, rfl, rfl⟩, row, hrow, rfl⟩
    exact ⟨h, row, hline, hrow, rfl⟩
  · rintro ⟨h, row, hline, hrow, rfl⟩
    exact ⟨h.file, h.number, ⟨h, hline, rfl, rfl⟩, row, hrow, rfl⟩

/-- A pair in front of a reading is read for itself: as a pair, or as two stray lines. -/
theorem exists_reading_append (p : IndentedPair) (r : Reading) :
    ∃ s : Reading, s.lines = p.lines ++ r.lines ∧ s.records = p.record?.toList ++ r.records ∧
      s.skipped = r.skipped + (if IsUnnumbered p.header then 1 else 0) +
        2 * (if ¬IsHeader p.header then 1 else 0) := by
  have hmessage := not_isHeader_of_indented p.indented
  by_cases h : IsHeader p.header
  · obtain ⟨header, hline⟩ := h
    have hrecord : p.record? = (Entry.pair header p.message).record? := by
      rw [record?, ← hline, header.splitHeader?_line]
      rfl
    have hnone : (Entry.pair header p.message).record? = none ↔ IsUnnumbered p.header := by
      rw [← hline, Header.isUnnumbered_line_iff]
      exact Option.map_eq_none_iff
    refine ⟨.cons (.pair header p.message) r, ?_, ?_, ?_⟩
    · rw [Reading.lines_cons, lines, ← hline]
      rfl
    · rw [Reading.records_cons, hrecord]
    · have hheader : ¬¬IsHeader p.header := not_not_intro ⟨header, hline⟩
      rw [Reading.skipped_cons, if_neg hheader]
      simp only [hnone]
      rfl
  · have hunnumbered : ¬IsUnnumbered p.header := fun ⟨header, hline, _⟩ => h ⟨header, hline⟩
    have hrecord : p.record? = none := by
      rw [record?, splitHeader?_eq_none_iff.2 h]
      rfl
    refine ⟨.cons (.stray p.header h) (.cons (.stray p.message hmessage) r), ?_, ?_, ?_⟩
    · rw [Reading.lines_cons, Reading.lines_cons]
      rfl
    · rw [Reading.records_cons, Reading.records_cons, hrecord]
      rfl
    · rw [Reading.skipped_cons, Reading.skipped_cons, if_neg hunnumbered, if_pos h]
      rfl

theorem exists_reading_flatMap (ps : List IndentedPair) :
    ∃ r : Reading, r.lines = ps.flatMap lines ∧ r.records = ps.filterMap record? ∧
      r.skipped = ps.countP (fun p => IsUnnumbered p.header) +
        2 * ps.countP (fun p => ¬IsHeader p.header) := by
  induction ps with
  | nil => exact ⟨⟨[], none⟩, rfl, rfl, rfl⟩
  | cons p ps ih =>
    obtain ⟨r, hlines, hrecords, hskipped⟩ := ih
    obtain ⟨s, hlines', hrecords', hskipped'⟩ := p.exists_reading_append r
    refine ⟨s, ?_, ?_, ?_⟩
    · rw [hlines', hlines, List.flatMap_cons]
    · rw [hrecords', hrecords]
      cases h : p.record? with
      | none => exact (List.filterMap_cons_none h).symm
      | some d => exact (List.filterMap_cons_some h).symm
    · rw [hskipped', hskipped, List.countP_cons, List.countP_cons]
      simp only [decide_eq_true_eq]
      omega

theorem newline_not_mem_of_mem_lines {p : IndentedPair} {l : List Char} (h : l ∈ p.lines) :
    '\n' ∉ l := by
  simp only [lines, List.mem_cons, List.not_mem_nil, or_false] at h
  rcases h with rfl | rfl
  · exact p.header_free
  · exact p.message_free

/-- Each pair of a line and an indented one is a record if and only if its first line is a header
with a number. Of the others, a header without a number counts with its message as one skipped line,
and a line that is no header and its message count as two. -/
theorem records_pairs :
    (∀ (ps : List IndentedPair) (text : List Char), Text.Written (ps.flatMap lines) text →
      docstyle.records (Text.Utf8.encode text) = ps.filterMap record? ∧
        (docstyle.stream (Text.Utf8.encode text)).exhausted.skipped =
          ps.countP (fun p => IsUnnumbered p.header) +
            2 * ps.countP (fun p => ¬IsHeader p.header)) ∧
    ∀ (p : IndentedPair) (d : Diagnostic), p.record? = some d ↔
      ∃ (h : Header) (row : UInt32), h.line = p.header ∧ Text.position? h.number = some row ∧
        d = .error (String.ofList h.file) row 1 "pydocstyle"
          (String.ofList (Text.trim p.message)) := by
  refine ⟨fun ps text hwritten => ?_, fun p d => record?_eq_some_iff⟩
  obtain ⟨r, hlines, hrecords, hskipped⟩ := exists_reading_flatMap ps
  have hfree : ∀ l ∈ r.lines, '\n' ∉ l := by
    intro l hl
    rw [hlines] at hl
    obtain ⟨p, -, hl⟩ := List.mem_flatMap.1 hl
    exact newline_not_mem_of_mem_lines hl
  rw [← hlines] at hwritten
  rw [← hrecords, ← hskipped]
  exact records_of_written hwritten hfree

/-- A header with two colons, one without a number, and one with a number. -/
def mixture : List IndentedPair := [
  { header := "C:x.py:3 in f:".toList, message := "    D103: m".toList
    header_free := by decide, message_free := by decide
    indented := fun _ hc => Option.some.inj hc ▸ rfl },
  { header := "b.py:x in g:".toList, message := "\tD100: m".toList
    header_free := by decide, message_free := by decide
    indented := fun _ hc => Option.some.inj hc ▸ rfl },
  { header := "c.py:+07".toList, message := "    D200: a.py:1 is odd ".toList
    header_free := by decide, message_free := by decide
    indented := fun _ hc => Option.some.inj hc ▸ rfl }]

theorem records_pairs_mixture :
    Text.Written (mixture.flatMap lines) (Text.unlines (mixture.flatMap lines)) ∧
    docstyle.records (Text.Utf8.encode (Text.unlines (mixture.flatMap lines))) =
      [.error "c.py" 7 1 "pydocstyle" "D200: a.py:1 is odd"] ∧
    (docstyle.stream (Text.Utf8.encode (Text.unlines (mixture.flatMap lines)))).exhausted.skipped =
      3 := by
  have hwritten := Text.written_unlines (mixture.flatMap lines)
  obtain ⟨hrecords, hskipped⟩ := records_pairs.1 mixture _ hwritten
  exact ⟨hwritten, hrecords.trans (by decide), hskipped.trans (by decide)⟩

end IndentedPair

/-! ### Foreign lines between records -/

/-- A line whose first word is not a file and a number that can be read. -/
def IsForeign (l : List Char) : Prop := ∀ h : Header, h.line = l → h.row? = none

/-- A header with a number, and any line as its message. -/
structure Finding where
  header : Header
  row : UInt32
  message : List Char
  row?_eq : header.row? = some row

namespace Finding

def lines (f : Finding) : List (List Char) := [f.header.line, f.message]

def diagnostic (f : Finding) : Diagnostic :=
  .error (String.ofList f.header.file) f.row 1 "pydocstyle" (String.ofList (Text.trim f.message))

def entry (f : Finding) : Entry := .pair f.header f.message

theorem record?_entry (f : Finding) : f.entry.record? = some f.diagnostic :=
  Option.map_eq_some_iff.2 ⟨f.row, f.row?_eq, rfl⟩

end Finding

namespace Reading

/-- The reading of foreign lines: it has no records, and would not have one either if its header at
the end found a message. -/
structure IsForeign (r : Reading) : Prop where
  entries : ∀ e ∈ r.entries, e.record? = none
  leftover : ∀ h ∈ r.leftover, h.row? = none

theorem isForeign_nil : IsForeign ⟨[], none⟩ where
  entries := List.forall_mem_nil _
  leftover h hh := absurd hh (Option.not_mem_none h)

theorem isForeign_of_lines {r : Reading} (h : ∀ l ∈ r.lines, Docstyle.IsForeign l) :
    r.IsForeign where
  entries e he := by
    cases e with
    | pair header message =>
      have hmem : header.line ∈ r.lines :=
        List.mem_append_left _ (List.mem_flatMap.2 ⟨_, he, List.mem_cons_self⟩)
      exact Option.map_eq_none_iff.2 (h _ hmem header rfl)
    | stray line hline => rfl
  leftover header hheader := by
    have hmem : header.line ∈ r.lines :=
      List.mem_append_right _ (by rw [Option.mem_def.1 hheader]; exact List.mem_cons_self)
    exact h _ hmem header rfl

end Reading

/-- Foreign lines and the record behind them. -/
structure Passage where
  before : Reading
  foreign : before.IsForeign
  finding : Finding

namespace Passage

def lines (p : Passage) : List (List Char) := p.before.lines ++ p.finding.lines

/-- Whether no header among the foreign lines is left without a message. -/
def isClosed (p : Passage) : Bool := p.before.leftover.isNone

/-- A passage in front of a reading adds its record if it is closed. If it is not, then it adds
nothing, since the header left over takes the header of the record, and the message is a stray line. -/
theorem exists_reading_append (p : Passage) (h : p.isClosed ∨ ¬IsHeader p.finding.message)
    (r : Reading) :
    ∃ s : Reading, s.lines = p.lines ++ r.lines ∧
      s.records = (if p.isClosed then [p.finding.diagnostic] else []) ++ r.records := by
  obtain ⟨⟨entries, leftover⟩, ⟨hentries, hleftover⟩, finding⟩ := p
  cases leftover with
  | none =>
    refine ⟨.append entries (.cons finding.entry r), ?_, ?_⟩
    · rw [Reading.lines_append, Reading.lines_cons]
      simp [lines, Reading.lines, Finding.entry, Finding.lines, Entry.lines]
    · rw [Reading.records_append_of_forall hentries, Reading.records_cons, finding.record?_entry]
      rfl
  | some header =>
    have hmessage : ¬IsHeader finding.message := h.resolve_left Bool.false_ne_true
    have hrow : (Entry.pair header finding.header.line).record? = none :=
      Option.map_eq_none_iff.2 (hleftover header rfl)
    refine ⟨.append entries (.cons (.pair header finding.header.line)
      (.cons (.stray finding.message hmessage) r)), ?_, ?_⟩
    · rw [Reading.lines_append, Reading.lines_cons, Reading.lines_cons]
      simp [lines, Reading.lines, Finding.lines, Entry.lines]
    · rw [Reading.records_append_of_forall hentries, Reading.records_cons, Reading.records_cons, hrow]
      rfl

/-- The lines of some passages, and foreign lines behind the last record. -/
def linesOf (ps : List Passage) (last : Reading) : List (List Char) :=
  ps.flatMap lines ++ last.lines

theorem exists_reading_linesOf {ps : List Passage}
    (h : ∀ p ∈ ps, p.isClosed ∨ ¬IsHeader p.finding.message) {last : Reading}
    (hlast : last.IsForeign) :
    ∃ r : Reading, r.lines = linesOf ps last ∧
      r.records = (ps.filter isClosed).map fun p => p.finding.diagnostic := by
  induction ps with
  | nil => exact ⟨last, rfl, List.filterMap_eq_nil_iff.2 hlast.entries⟩
  | cons p ps ih =>
    obtain ⟨hp, hps⟩ := List.forall_mem_cons.1 h
    obtain ⟨r, hlines, hrecords⟩ := ih hps
    obtain ⟨s, hlines', hrecords'⟩ := p.exists_reading_append hp r
    refine ⟨s, ?_, ?_⟩
    · rw [hlines', hlines, linesOf, linesOf, List.flatMap_cons, List.append_assoc]
    · rw [hrecords', hrecords, List.filter_cons]
      split <;> rfl

theorem records_of_passages {ps : List Passage}
    (h : ∀ p ∈ ps, p.isClosed ∨ ¬IsHeader p.finding.message) {last : Reading}
    (hlast : last.IsForeign) (hfree : ∀ l ∈ linesOf ps last, '\n' ∉ l) {text : List Char}
    (hwritten : Text.Written (linesOf ps last) text) :
    docstyle.records (Text.Utf8.encode text) =
      (ps.filter isClosed).map fun p => p.finding.diagnostic := by
  obtain ⟨r, hlines, hrecords⟩ := exists_reading_linesOf h hlast
  rw [← hlines] at hfree hwritten
  rw [← hrecords]
  exact (records_of_written hwritten hfree).1

/-- A record with no foreign lines in front. -/
def alone (f : Finding) : Passage where
  before := ⟨[], none⟩
  foreign := Reading.isForeign_nil
  finding := f

theorem linesOf_alone (fs : List Finding) :
    linesOf (fs.map alone) ⟨[], none⟩ = fs.flatMap Finding.lines := by
  simp only [linesOf, List.flatMap_map, lines, alone, Reading.lines, Option.map_none,
    Option.toList_none, List.flatMap_nil, List.nil_append, List.append_nil]

theorem records_of_findings {fs : List Finding} (hfree : ∀ l ∈ fs.flatMap Finding.lines, '\n' ∉ l)
    {text : List Char} (hwritten : Text.Written (fs.flatMap Finding.lines) text) :
    docstyle.records (Text.Utf8.encode text) = fs.map Finding.diagnostic := by
  have hclosed : ∀ p ∈ fs.map alone, p.isClosed = true := List.forall_mem_map.2 fun _ _ => rfl
  rw [← linesOf_alone] at hfree hwritten
  rw [records_of_passages (fun p hp => .inl (hclosed p hp)) Reading.isForeign_nil hfree hwritten,
    List.filter_eq_self.2 hclosed, List.map_map]
  rfl

/-- Foreign lines, which have one reading, cost no record as long as no header among them is left
without a message when the next record begins. If no message is itself a header, then the records
behind the foreign lines of which this is not so are lost, and only those. -/
theorem records_among_foreign_lines :
    (∀ ls : List (List Char), (∀ l ∈ ls, IsForeign l) →
      ∃ r : Reading, r.lines = ls ∧ r.IsForeign ∧ ∀ s : Reading, s.lines = ls → s = r) ∧
    ∀ (ps : List Passage) (last : Reading) (text text' : List Char), last.IsForeign →
      (∀ l ∈ linesOf ps last, '\n' ∉ l) → Text.Written (linesOf ps last) text →
      Text.Written (ps.flatMap fun p => p.finding.lines) text' →
      ((∀ p ∈ ps, p.isClosed) →
        docstyle.records (Text.Utf8.encode text) = docstyle.records (Text.Utf8.encode text')) ∧
      ((∀ p ∈ ps, ¬IsHeader p.finding.message) →
        docstyle.records (Text.Utf8.encode text) =
          (ps.filter isClosed).map fun p => p.finding.diagnostic) ∧
      docstyle.records (Text.Utf8.encode text') = ps.map fun p => p.finding.diagnostic := by
  constructor
  · intro ls h
    obtain ⟨r, rfl⟩ := Reading.exists_reading ls
    exact ⟨r, rfl, Reading.isForeign_of_lines h, fun s hs => Reading.lines_injective hs⟩
  · intro ps last text text' hlast hfree hwritten hwritten'
    have hfree' : ∀ l ∈ (ps.map (·.finding)).flatMap Finding.lines, '\n' ∉ l := by
      rw [List.flatMap_map]
      intro l hl
      obtain ⟨p, hp, hl⟩ := List.mem_flatMap.1 hl
      exact hfree l (List.mem_append_left _
        (List.mem_flatMap.2 ⟨p, hp, List.mem_append_right _ hl⟩))
    have hwithout : docstyle.records (Text.Utf8.encode text') =
        ps.map fun p => p.finding.diagnostic := by
      rw [records_of_findings hfree' (by rwa [List.flatMap_map]), List.map_map]
      rfl
    refine ⟨fun hclosed => ?_, fun hmessage => ?_, hwithout⟩
    · rw [records_of_passages (fun p hp => .inl (hclosed p hp)) hlast hfree hwritten,
        List.filter_eq_self.2 hclosed, hwithout]
    · exact records_of_passages (fun p hp => .inr (hmessage p hp)) hlast hfree hwritten

/-- A line whose first word has a colon, and no number behind it. -/
def warning : Header where
  file := "warning".toList
  number := []
  context := " odd".toList
  file_word := by simp [Text.isBlank]
  number_word := List.forall_mem_nil _
  file_free := by decide
  number_free := by decide
  context_apart _ hc := Option.some.inj hc ▸ rfl

/-- A header with a number, and its message. -/
def missing : Finding where
  header :=
    { unnumbered with
      number := "1".toList
      number_word := by simp [Text.isBlank]
      number_free := by decide }
  row := 1
  message := "    D103: m".toList
  row?_eq := by decide

/-- A warning with a line of its own behind it, and a record. -/
def behindTwoLines : Passage where
  before := ⟨[.pair warning "a.py:9".toList], none⟩
  foreign := ⟨List.forall_mem_singleton.2 rfl, by simp⟩
  finding := missing

/-- A warning, and a record directly behind it. -/
def behindWarning : Passage where
  before := ⟨[], some warning⟩
  foreign := ⟨List.forall_mem_nil _, fun _ hh => Option.some.inj hh ▸ rfl⟩
  finding := missing

theorem records_among_foreign_lines_warning :
    docstyle.records (Text.Utf8.encode "warning: odd\na.py:9\na.py:1 in f:\n    D103: m\n".toList) =
        [.error "a.py" 1 1 "pydocstyle" "D103: m"] ∧
      docstyle.records (Text.Utf8.encode
        "warning: odd\na.py:1 in f:\n    D103: m\na.py:1 in f:\n    D103: m\n".toList) =
          [.error "a.py" 1 1 "pydocstyle" "D103: m"] := by
  constructor
  · have hfree : ∀ l ∈ linesOf [behindTwoLines] ⟨[], none⟩, '\n' ∉ l := by decide
    obtain ⟨hclosed, -, hwithout⟩ := records_among_foreign_lines.2 [behindTwoLines] ⟨[], none⟩ _ _
      Reading.isForeign_nil hfree (Text.written_unlines _) (Text.written_unlines _)
    exact (hclosed (by decide)).trans hwithout
  · have hfree : ∀ l ∈ linesOf [behindWarning, alone missing] ⟨[], none⟩, '\n' ∉ l := by decide
    obtain ⟨-, hmessage, -⟩ := records_among_foreign_lines.2 [behindWarning, alone missing]
      ⟨[], none⟩ _ _ Reading.isForeign_nil hfree (Text.written_unlines _) (Text.written_unlines _)
    exact hmessage (by decide)

/-- The warning is no header of a record, and yet takes the header of one for its message. -/
theorem lost_behind_warning :
    IsForeign "warning: odd".toList ∧
    docstyle.records (Text.Utf8.encode "warning: odd\na.py:1 in f:\n    D103: m\n".toList) = [] ∧
    docstyle.records (Text.Utf8.encode "a.py:1 in f:\n    D103: m\n".toList) =
      [.error "a.py" 1 1 "pydocstyle" "D103: m"] := by
  refine ⟨fun h hline => ?_, ?_, ?_⟩
  · rw [Header.line_injective (g := h) (h := warning) hline]
    rfl
  · have hmessage : ∀ p ∈ [behindWarning], p.isClosed ∨ ¬IsHeader p.finding.message :=
      List.forall_mem_singleton.2 (.inr (by decide))
    exact records_of_passages hmessage Reading.isForeign_nil (by decide) (Text.written_unlines _)
  · have hfree : ∀ l ∈ [missing].flatMap Finding.lines, '\n' ∉ l := by decide
    exact records_of_findings hfree (Text.written_unlines _)

end Passage

end LintReport.Parser.Docstyle
