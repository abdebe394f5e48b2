import LintReport.Proofs.Docstyle.Header
import LintReport.Proofs.Lines
import LintReport.Proofs.Numerals
import LintReport.Proofs.OneLine.Unformatted
import LintReport.Proofs.Selection

/-! What every record of a run looks like, whatever bytes the tools wrote. Positions count from one;
what was one line of some output is still without a newline in a record; and only the message of a
hunk is made of lines. Each kind of stream keeps what its records rest on: that the lines to come
are lines, and for a diff that the file and the open hunk of the scanner are as a record needs
them. -/

namespace LintReport

/-- What holds of a record, which is that of a hunk or of single lines. -/
structure Diagnostic.WellFormed (ofHunk : Bool) (d : Diagnostic) : Prop where
  line : 1 ≤ d.line.toNat ∧ d.line.toNat < UInt32.size
  column : 1 ≤ d.column.toNat ∧ d.column.toNat < UInt32.size
  file : '\n' ∉ d.file.toList
  title : '\n' ∉ d.title.toList
  message : '\n' ∈ d.message.toList → ofHunk = true
  /-- The message of a hunk is not empty, and its last line is ended. -/
  body : ofHunk = true → d.message ≠ "" ∧ d.message.toList.getLast? = some '\n'

/-- Texts that each are one line. -/
def Text.AreLines (ls : List (List Char)) : Prop := ∀ l ∈ ls, '\n' ∉ l

theorem Text.AreLines.of_append {passed ls : List (List Char)} (h : AreLines (passed ++ ls)) :
    AreLines passed ∧ AreLines ls := List.forall_mem_append.1 h

theorem Text.AreLines.of_cons {l : List Char} {ls : List (List Char)} (h : AreLines (l :: ls)) :
    '\n' ∉ l ∧ AreLines ls := List.forall_mem_cons.1 h

theorem Parser.areLines (p : Parser) (output : Bytes) : Text.AreLines (p.lines output) :=
  Text.newline_not_mem_of_mem_lines _

namespace Parser

/-! ### Single lines -/

/-- A record whose texts are parts of single lines. -/
theorem wellFormed_untitled {severity : Severity} {file message : List Char} {line column : UInt32}
    {source : String} (hline : 1 ≤ line.toNat) (hcolumn : 1 ≤ column.toNat) (hfile : '\n' ∉ file)
    (hmessage : '\n' ∉ message) :
    (Diagnostic.untitled severity (String.ofList file) line column source
      (String.ofList message)).WellFormed false where
  line := ⟨hline, line.toNat_lt⟩
  column := ⟨hcolumn, column.toNat_lt⟩
  file := by rwa [Diagnostic.untitled, String.toList_ofList]
  title := List.not_mem_nil
  message := by
    rw [Diagnostic.untitled, String.toList_ofList]
    exact fun h => absurd h hmessage
  body := fun h => nomatch h

theorem wellFormed_withTitle {d : Diagnostic} {ofHunk : Bool} {title : List Char}
    (h : d.WellFormed ofHunk) (htitle : '\n' ∉ title) :
    (d.withTitle (String.ofList title)).WellFormed ofHunk :=
  { h with title := by rwa [Diagnostic.withTitle, String.toList_ofList] }

theorem newline_not_mem_trim {s : List Char} (h : '\n' ∉ s) : '\n' ∉ Text.trim s :=
  fun hmem => h ((Text.trim_sublist s).mem hmem)

theorem Fields.wellFormed_finding {line : List Char} (f : Fields line) (hline : '\n' ∉ line)
    {severity : Severity} {row column : UInt32} {source : String} (hrow : 1 ≤ row.toNat)
    (hcolumn : 1 ≤ column.toNat) : (f.finding severity row column source).WellFormed false := by
  have htrim := newline_not_mem_trim hline
  rw [f.trim_eq] at htrim
  simp only [List.mem_append, List.mem_cons, not_or] at htrim
  obtain ⟨hfile, -, -, -, -, -, hmessage⟩ := htrim
  exact wellFormed_untitled hrow hcolumn hfile (newline_not_mem_trim hmessage)

theorem Failure.wellFormed_finding {line : List Char} (f : Failure line) (hline : '\n' ∉ line)
    {row column : UInt32} {source : String} (hrow : 1 ≤ row.toNat) (hcolumn : 1 ≤ column.toNat) :
    (f.finding row column source).WellFormed false := by
  have htrim := newline_not_mem_trim hline
  rw [f.trim_eq] at htrim
  simp only [List.mem_append, List.mem_cons, not_or] at htrim
  obtain ⟨-, -, hfailure, -, hsummary, -, -, -, -, -, hmessage⟩ := htrim
  have hfile : '\n' ∉ Text.afterLast ' ' f.failure :=
    fun hmem => hfailure ((Text.afterLast_sublist ' ' f.failure).mem hmem)
  exact wellFormed_withTitle (wellFormed_untitled hrow hcolumn hfile (newline_not_mem_trim hmessage))
    (newline_not_mem_trim hsummary)

namespace OneLineFormat

theorem wellFormed_of_positioned? {source : String} {line : List Char} {d : Diagnostic}
    (hline : '\n' ∉ line) (h : positioned? source line = some d) : d.WellFormed false := by
  obtain ⟨f, row, column, hrow, hcolumn, rfl⟩ := positioned?_eq_some_iff.1 h
  exact f.wellFormed_finding hline (Text.one_le_of_position? hrow)
    (Text.one_le_of_position? hcolumn)

theorem wellFormed_of_levelled? {source : String} {line : List Char} {d : Diagnostic}
    (hline : '\n' ∉ line) (h : levelled? source line = some d) : d.WellFormed false := by
  obtain ⟨f, row, hrow, rfl⟩ := levelled?_eq_some_iff.1 h
  exact f.wellFormed_finding hline (Text.one_le_of_position? hrow) (Nat.le_refl 1)

theorem wellFormed_of_unformatted? {source : String} {line : List Char} {d : Diagnostic}
    (hline : '\n' ∉ line) (h : unformatted? source line = some d) : d.WellFormed false := by
  obtain ⟨f, row, column, hrow, hcolumn, rfl⟩ := unformatted?_eq_some_iff.1 h
  exact f.wellFormed_finding hline (Text.one_le_of_position? hrow) (Text.one_le_of_position? hcolumn)

theorem wellFormed_of_record? {format : OneLineFormat} {line : List Char} {d : Diagnostic}
    (hline : '\n' ∉ line) (h : format.record? line = some d) : d.WellFormed false := by
  unfold record? at h
  split at h
  · cases format with
    | flake8 => exact wellFormed_of_positioned? hline h
    | mypy => exact wellFormed_of_levelled? hline h
    | pylint => exact wellFormed_of_positioned? hline h
    | blackErrors => exact wellFormed_of_unformatted? hline h
  · cases h

end OneLineFormat

theorem OneLineStream.wellFormed_of_nextFrom {format : OneLineFormat} {rest : List (List Char)}
    {n : Nat} {d : Diagnostic} {t : OneLineStream} (hrest : Text.AreLines rest)
    (h : nextFrom format rest n = (some d, t)) : d.WellFormed false ∧ Text.AreLines t.rest := by
  obtain ⟨passed, line, rfl, -, hrecord, -⟩ := exists_of_nextFrom h
  obtain ⟨hline, hbehind⟩ := hrest.of_append.2.of_cons
  exact ⟨OneLineFormat.wellFormed_of_record? hline hrecord, hbehind⟩

/-! ### Two lines -/

theorem newline_not_mem_of_splitHeader? {header file number : List Char} (hheader : '\n' ∉ header)
    (h : splitHeader? header = some (file, number)) : '\n' ∉ file := by
  obtain ⟨h, rfl, rfl, -⟩ := Docstyle.splitHeader?_eq_some_iff.1 h
  exact fun hmem => hheader (List.mem_append_left _ (List.mem_append_left _ hmem))

theorem DocstyleStream.wellFormed_of_nextFrom {rest : List (List Char)} {n : Nat} {d : Diagnostic}
    {t : DocstyleStream} (hrest : Text.AreLines rest) (h : nextFrom rest n = (some d, t)) :
    d.WellFormed false ∧ Text.AreLines t.rest := by
  obtain ⟨passed, header, message, file, number, line, rfl, hheader, hline, rfl⟩ :=
    exists_of_nextFrom h
  obtain ⟨hheaderLine, hbehind⟩ := hrest.of_append.2.of_cons
  obtain ⟨hmessage, hbehind⟩ := hbehind.of_cons
  exact ⟨wellFormed_untitled (Text.one_le_of_position? hline) (Nat.le_refl 1)
    (newline_not_mem_of_splitHeader? hheaderLine hheader) (newline_not_mem_trim hmessage), hbehind⟩

end Parser

/-! ### Hunks -/

namespace Diff

theorem one_le_of_hunkStart? {header : List Char} {n : UInt32} (h : hunkStart? header = some n) :
    1 ≤ n.toNat := by
  simp only [hunkStart?, bind, Option.bind_eq_some_iff, pure, Option.some.injEq] at h
  obtain ⟨_, -, m, -, rfl⟩ := h
  exact Text.one_le_oneBased m

theorem newline_not_mem_fileName {l : List Char} (h : '\n' ∉ l) : '\n' ∉ fileName l :=
  fun hmem => h (((List.takeWhile_sublist _).trans (List.drop_sublist 4 l)).mem hmem)

/-- A state in a file whose name is part of a line, and in no hunk that begins before the first
line. -/
def State.IsSound : State → Prop
  | .awaitingFile => True
  | .awaitingHunk file => '\n' ∉ file
  | .accumulating file start _ => '\n' ∉ file ∧ 1 ≤ start.toNat

namespace Scanner

variable {s : Scanner} {d : Diagnostic}

theorem wellFormed_of_record? {file : List Char} {start : UInt32} {body : List (List Char)}
    (hfile : '\n' ∉ file) (hstart : 1 ≤ start.toNat) (htitle : '\n' ∉ s.title.toList)
    (h : s.record? file start body = some d) : d.WellFormed true := by
  unfold record? at h
  split at h
  · cases h
  · rename_i hbody
    have hlast := Text.getLast?_unlines hbody
    have hne : Text.unlines body ≠ [] := by
      intro hnil
      rw [hnil] at hlast
      cases hlast
    rw [Option.some.injEq] at h
    subst h
    refine ⟨⟨hstart, start.toNat_lt⟩, ⟨Nat.le_refl 1, (1 : UInt32).toNat_lt⟩, ?_, htitle,
      fun _ => rfl, fun _ => ⟨?_, ?_⟩⟩
    · show '\n' ∉ (String.ofList file).toList
      rwa [String.toList_ofList]
    · show String.ofList (Text.unlines body) ≠ ""
      exact fun hempty => hne (String.ofList_eq_empty_iff.1 hempty)
    · show (String.ofList (Text.unlines body)).toList.getLast? = some '\n'
      rw [String.toList_ofList]
      exact hlast

theorem wellFormed_of_flush (hs : s.state.IsSound) (htitle : '\n' ∉ s.title.toList)
    (h : s.flush.1 = some d) : d.WellFormed true := by
  unfold flush at h
  split at h
  · rename_i hstate
    rw [hstate] at hs
    exact wellFormed_of_record? hs.1 hs.2 htitle h
  · cases h

theorem isSound_flush (hs : s.state.IsSound) : s.flush.2.state.IsSound := by
  unfold flush
  split
  · rename_i hstate
    rw [hstate] at hs
    exact hs.1
  · exact hs

theorem isSound_openHunk (hs : s.state.IsSound) {start : Option UInt32}
    (hstart : ∀ n, start = some n → 1 ≤ n.toNat) : (s.openHunk start).state.IsSound := by
  unfold openHunk
  split
  · rename_i n hstate
    rw [hstate] at hs
    exact ⟨hs, hstart n rfl⟩
  · exact hs

theorem isSound_take (hs : s.state.IsSound) (l : List Char) : (s.take l).state.IsSound := by
  unfold take
  split
  · rename_i hstate
    rw [hstate] at hs
    exact hs
  · exact hs

/-- A line leaves the scanner sound. -/
theorem isSound_feed (hs : s.state.IsSound) {l : List Char} (hl : '\n' ∉ l) :
    (s.feed l).2.state.IsSound := by
  cases h : kind l with
  | newFile =>
    rw [s.feed_newFile h]
    exact hs
  | oldFile =>
    rw [s.feed_oldFile h]
    exact newline_not_mem_fileName hl
  | header =>
    rw [s.feed_header h]
    exact isSound_openHunk (isSound_flush hs) fun n => one_le_of_hunkStart?
  | other =>
    rw [s.feed_other h]
    exact isSound_take hs l

theorem isSound_scan (hs : s.state.IsSound) {ls : List (List Char)} (hls : Text.AreLines ls) :
    (s.scan ls).2.state.IsSound := by
  induction ls generalizing s with
  | nil => exact hs
  | cons l ls ih =>
    obtain ⟨hl, hls⟩ := hls.of_cons
    exact ih (isSound_feed hs hl) hls

theorem wellFormed_of_feed (hs : s.state.IsSound) (htitle : '\n' ∉ s.title.toList) {l : List Char}
    (h : (s.feed l).1 = some d) : d.WellFormed true := by
  cases hl : kind l with
  | newFile =>
    rw [s.feed_newFile hl] at h
    cases h
  | oldFile =>
    rw [s.feed_oldFile hl] at h
    exact wellFormed_of_flush hs htitle h
  | header =>
    rw [s.feed_header hl] at h
    exact wellFormed_of_flush hs htitle h
  | other =>
    rw [s.feed_other hl] at h
    cases h

theorem wellFormed_of_finish (hs : s.state.IsSound) (htitle : '\n' ∉ s.title.toList)
    {trailing : Trailing} (h : (s.finish trailing).1 = some d) : d.WellFormed true := by
  cases trailing with
  | discard => cases h
  | flush => exact wellFormed_of_flush hs htitle h

end Scanner

end Diff

namespace Parser

/-- A stream of hunks whose scanner and remaining lines can only give well-formed records. -/
structure HunkStream.IsSound (s : HunkStream) : Prop where
  rest : Text.AreLines s.rest
  state : s.scanner.state.IsSound
  title : '\n' ∉ s.scanner.title.toList

theorem HunkStream.wellFormed_of_nextFrom {trailing : Diff.Trailing} {rest : List (List Char)}
    {scanner : Diff.Scanner} {d : Diagnostic} {t : HunkStream} (hrest : Text.AreLines rest)
    (hstate : scanner.state.IsSound) (htitle : '\n' ∉ scanner.title.toList)
    (h : nextFrom trailing rest scanner = (some d, t)) : d.WellFormed true ∧ t.IsSound := by
  rcases cases_of_nextFrom h with ⟨passed, line, rfl, -, hfeed⟩ | ⟨hend, -, hfinish⟩
  · obtain ⟨hpassed, hbehind⟩ := hrest.of_append
    obtain ⟨hline, hbehind⟩ := hbehind.of_cons
    have hscanned := Diff.Scanner.isSound_scan hstate hpassed
    have htitle' : '\n' ∉ (scanner.scan passed).2.title.toList := by
      rwa [(scanner.source_title_scan passed).2]
    have hstate' := Diff.Scanner.isSound_feed hscanned hline
    have hkept := ((scanner.scan passed).2.source_title_feed line).2
    rw [hfeed] at hstate' hkept
    exact ⟨Diff.Scanner.wellFormed_of_feed hscanned htitle' (congrArg Prod.fst hfeed), hbehind,
      hstate', hkept ▸ htitle'⟩
  · have hscanned := Diff.Scanner.isSound_scan hstate hrest
    have htitle' : '\n' ∉ (scanner.scan rest).2.title.toList := by
      rwa [(scanner.source_title_scan rest).2]
    have hnext : t.scanner = ((scanner.scan rest).2.finish trailing).2 :=
      congrArg Prod.snd hfinish.symm
    refine ⟨Diff.Scanner.wellFormed_of_finish hscanned htitle' (congrArg Prod.fst hfinish), ?_⟩
    refine ⟨hend ▸ List.forall_mem_nil _, ?_, ?_⟩
    · rw [hnext]
      trivial
    · rw [hnext]
      exact htitle'

theorem HunkStream.wellFormed_of_next {s t : HunkStream} {d : Diagnostic} (hs : s.IsSound)
    (h : s.next = (some d, t)) : d.WellFormed true ∧ t.IsSound := by
  unfold next at h
  split at h
  · cases h
  · exact wellFormed_of_nextFrom hs.rest hs.state hs.title h

/-! ### Whole streams -/

/-- Whether the records of a parser are those of hunks. -/
def readsHunks : Parser → Bool
  | diff _ => true
  | _ => false

/-- A parser that gives no title, or one that is a line. -/
def TitleIsLine : Parser → Prop
  | diff parser => '\n' ∉ parser.title.toList
  | _ => True

namespace Stream

/-- What the records of a stream rest on. -/
def IsSound : Bool → Stream → Prop
  | false, oneLine s => Text.AreLines s.rest
  | false, docstyle s => Text.AreLines s.rest
  | true, hunks s => s.IsSound
  | _, _ => False

/-- A poll gives a well-formed record and keeps what the next one rests on. -/
theorem wellFormed_of_next {ofHunk : Bool} {s t : Stream} {d : Diagnostic} (hs : s.IsSound ofHunk)
    (h : s.next = (some d, t)) : d.WellFormed ofHunk ∧ t.IsSound ofHunk := by
  obtain ⟨u, v, rfl, rfl, hnext⟩ | ⟨u, v, rfl, rfl, hnext⟩ | ⟨u, v, rfl, rfl, hnext⟩ :=
    cases_of_next h
  · cases ofHunk with
    | false => exact OneLineStream.wellFormed_of_nextFrom hs hnext
    | true => exact hs.elim
  · cases ofHunk with
    | false => exact DocstyleStream.wellFormed_of_nextFrom hs hnext
    | true => exact hs.elim
  · cases ofHunk with
    | false => exact hs.elim
    | true => exact HunkStream.wellFormed_of_next hs hnext

theorem wellFormed_of_mem_toList {ofHunk : Bool} {s : Stream} (hs : s.IsSound ofHunk) :
    ∀ d ∈ s.toList, d.WellFormed ofHunk :=
  forall_mem_toList (IsSound ofHunk) (fun _ _ _ => wellFormed_of_next) hs

end Stream

theorem isSound_stream {p : Parser} (hp : p.TitleIsLine) (output : Bytes) :
    (p.stream output).IsSound p.readsHunks := by
  have hlines := p.areLines output
  rw [stream_eq]
  cases p with
  | oneLine format => exact hlines
  | docstyle => exact hlines
  | diff parser => exact ⟨hlines, trivial, hp⟩

theorem wellFormed_of_mem_records {p : Parser} (hp : p.TitleIsLine) {output : Bytes}
    {d : Diagnostic} (h : d ∈ p.records output) : d.WellFormed p.readsHunks :=
  Stream.wellFormed_of_mem_toList (isSound_stream hp output) d h

end Parser

/-! ### Whole runs -/

namespace Toolchain

variable {outputs : ToolOutputs} {p : Parser} {d : Diagnostic}

theorem wellFormed_of_mem_recordsOf (hp : p.TitleIsLine) (h : d ∈ recordsOf outputs p) :
    d.WellFormed p.readsHunks ∧ (outputs p.tool).isSome = true := by
  unfold recordsOf at h
  split at h
  · rename_i houtput
    rw [houtput]
    exact ⟨Parser.wellFormed_of_mem_records hp h, rfl⟩
  · cases h

theorem titleIsLine_of_mem_builtinParsers {trailing : Diff.Trailing}
    (h : p ∈ builtinParsers trailing) : p.TitleIsLine := by
  simp only [builtinParsers, List.mem_cons, List.not_mem_nil, or_false] at h
  rcases h with rfl | rfl | rfl | rfl | rfl | rfl | rfl <;> simp [Parser.TitleIsLine]

theorem tool_mem_knownTools {trailing : Diff.Trailing} (h : p ∈ builtinParsers trailing) :
    p.tool ∈ knownTools := by
  simp only [builtinParsers, List.mem_cons, List.not_mem_nil, or_false] at h
  rcases h with rfl | rfl | rfl | rfl | rfl | rfl | rfl <;> simp [Parser.tool, knownTools,
    Parser.OneLineFormat.tool, Parser.DocstyleStream.source]

/-- If the tools of the parsers are in some order, so are the sources of the run. -/
theorem pairwise_source_run {t : Toolchain} {r : String → String → Prop}
    (hrefl : ∀ tool, r tool tool) (h : t.parsers.Pairwise fun p q => r p.tool q.tool)
    (outputs : ToolOutputs) : ((t.run outputs).toList.map Diagnostic.source).Pairwise r := by
  rw [toList_run, List.pairwise_map, List.pairwise_flatMap]
  constructor
  · intro p _
    apply List.pairwise_of_forall_mem_list
    intro d hd e he
    rw [source_of_mem_recordsOf hd, source_of_mem_recordsOf he]
    exact hrefl p.tool
  · refine h.imp fun {p q} hpq d hd e he => ?_
    rw [source_of_mem_recordsOf hd, source_of_mem_recordsOf he]
    exact hpq

theorem pairwise_tool_builtinParsers (trailing : Diff.Trailing) :
    (builtinParsers trailing).Pairwise
      fun p q => knownTools.idxOf p.tool ≤ knownTools.idxOf q.tool := by
  cases trailing <;> decide

/-- The parsers that settings leave are known ones of enabled tools. -/
theorem mem_parsers_ofSettings {s : LintSettings} (h : p ∈ (ofSettings s).parsers) :
    p ∈ builtinParsers s.trailing ∧ s.isEnabled p.tool = true := by
  rw [parsers_ofSettings] at h
  exact List.mem_filter.1 h

/-- The run of a toolchain made by settings is the records of its parsers, one parser after the
other. Each of these records is well-formed, as that of a hunk if its parser reads hunks, and comes
from an enabled tool that left some output behind; and the tools come in the order in which they
are known. -/
theorem wellFormed_run (s : LintSettings) (outputs : ToolOutputs) :
    ((ofSettings s).run outputs).toList = (ofSettings s).parsers.flatMap (recordsOf outputs) ∧
    (∀ p ∈ (ofSettings s).parsers, ∀ d ∈ recordsOf outputs p,
      d.WellFormed p.readsHunks ∧ d.source = p.tool ∧ d.source ∈ knownTools ∧
        s.isEnabled d.source = true ∧ (outputs d.source).isSome = true) ∧
    (((ofSettings s).run outputs).toList.map Diagnostic.source).Pairwise
      fun a b => knownTools.idxOf a ≤ knownTools.idxOf b := by
  refine ⟨toList_run _ outputs, ?_, ?_⟩
  · intro p hp d hd
    obtain ⟨hbuiltin, henabled⟩ := mem_parsers_ofSettings hp
    obtain ⟨hd', houtput⟩ :=
      wellFormed_of_mem_recordsOf (titleIsLine_of_mem_builtinParsers hbuiltin) hd
    have hsource := source_of_mem_recordsOf hd
    rw [hsource]
    exact ⟨hd', rfl, tool_mem_knownTools hbuiltin, henabled, houtput⟩
  · apply pairwise_source_run fun tool => Nat.le_refl (knownTools.idxOf tool)
    rw [parsers_ofSettings]
    exact (pairwise_tool_builtinParsers s.trailing).filter _

/-- The parser of what black would change, when the last hunk is kept. -/
def blackDiff : Parser :=
  .diff { name := "black-diff", source := "black", title := "Black alteration", trailing := .flush }

/-- Black adds a line to an empty file. -/
def added : ToolOutputs := fun name =>
  if name = "black" then
    some {
      exitCode := 0
      stdout := Text.Utf8.encode "--- a.py\t1\n+++ a.py\t2\n@@ -0,0 +1 @@\n+x\n".toList
      stderr := [] }
  else none

/-- Its hunk begins at line zero, and is reported at the first line. -/
def additionRecord : Diagnostic :=
  (Diagnostic.error "a.py" 1 1 "black" "+x\n").withTitle "Black alteration"

theorem wellFormed_run_added :
    blackDiff ∈ (ofSettings { trailing := .flush }).parsers ∧
      additionRecord ∈ recordsOf added blackDiff ∧
      additionRecord.WellFormed true ∧ (added additionRecord.source).isSome = true := by
  have hparser : blackDiff ∈ (ofSettings { trailing := .flush }).parsers := by decide
  have hrecord : additionRecord ∈ recordsOf added blackDiff := by
    rw [recordsOf_of_some rfl]
    show additionRecord ∈ blackDiff.records (Text.Utf8.encode _)
    rw [blackDiff, DiffParser.records_encode]
    decide +kernel
  have hrun :=
    (wellFormed_run { trailing := .flush } added).2.1 blackDiff hparser additionRecord hrecord
  exact ⟨hparser, hrecord, hrun.1, hrun.2.2.2.2⟩

end Toolchain

end LintReport
