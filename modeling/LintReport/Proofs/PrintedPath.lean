import LintReport.Proofs.Docstyle.Reading
import LintReport.Proofs.Numerals
import LintReport.Proofs.OneLine.Unformatted

/-! Paths in the two formats that print them without quotes next to other words. Black prints the
path as the last words before a colon, and of these the last one is taken; pydocstyle begins its
headers with the path, and there the first word has to hold the line number too. So a path is
reported as it was printed if it is a single word, for black between spaces and for pydocstyle
between white space of any kind. Any other path is cut short in the one format and has no record in
the other. -/

namespace LintReport.Parser

open Text (decimal isBlank trim trimStart trimEnd)

/-- A path as it is printed. White space may stand in it, but not at its ends. -/
structure PrintedPath where
  chars : List Char
  ne_nil : chars ≠ []
  colon_free : ':' ∉ chars
  newline_free : '\n' ∉ chars
  trimmed : trim chars = chars

/-! ### Black -/

/-- What black says of a file that it cannot format. -/
structure PrintedFailure where
  level : List Char
  path : PrintedPath
  summary : List Char
  row : UInt32
  column : UInt32
  info : List Char
  level_colon_free : ':' ∉ level
  level_newline_free : '\n' ∉ level
  summary_colon_free : ':' ∉ summary
  summary_newline_free : '\n' ∉ summary
  row_ne_zero : row ≠ 0
  column_ne_zero : column ≠ 0
  info_newline_free : '\n' ∉ info
  info_trimmed : trim info = info

namespace PrintedFailure

def cannotFormat : List Char := " cannot format".toList

theorem colon_not_mem_cannotFormat : ':' ∉ cannotFormat := by decide

theorem newline_not_mem_cannotFormat : '\n' ∉ cannotFormat := by decide

variable (f : PrintedFailure)

def line : List Char :=
  f.level ++ ':' :: (cannotFormat ++ ' ' :: f.path.chars ++ ':' :: (' ' :: f.summary ++ ':' ::
    (' ' :: decimal f.row.toNat ++ ':' :: (decimal f.column.toNat ++ ':' :: ' ' :: f.info))))

/-- The record of a failure in some file. -/
def diagnostic (file : List Char) : Diagnostic where
  severity := .ofLabel f.level
  file := String.ofList file
  line := f.row
  column := f.column
  source := "black"
  title := String.ofList (trim f.summary)
  message := String.ofList f.info

def parsed : Failure f.line where
  level := trimStart f.level
  failure := cannotFormat ++ ' ' :: f.path.chars
  summary := ' ' :: f.summary
  row := ' ' :: decimal f.row.toNat
  column := decimal f.column.toNat
  message := trimEnd (' ' :: f.info)
  trim_eq := by
    have hcolon : isBlank ':' = false := rfl
    rw [line, Text.trim_append_cons hcolon, Text.trimEnd_append_cons hcolon,
      Text.trimEnd_append_cons hcolon, Text.trimEnd_append_cons hcolon,
      Text.trimEnd_append_cons hcolon]
  level_free h := f.level_colon_free ((List.dropWhile_sublist _).mem h)
  failure_free := by simp [colon_not_mem_cannotFormat, f.path.colon_free]
  summary_free := by simp [f.summary_colon_free]
  row_free := by simp [Text.not_mem_decimal]
  column_free := Text.not_mem_decimal rfl _

theorem record?_line :
    OneLineFormat.blackErrors.record? f.line =
      some (f.diagnostic (Text.afterLast ' ' f.path.chars)) := by
  have hspace : ∀ c ∈ [' '], isBlank c = true := List.forall_mem_singleton.2 rfl
  have hlevel : Severity.ofLabel (trimStart f.level) = .ofLabel f.level := by
    rw [Severity.ofLabel, Severity.ofLabel, Text.trim_trimStart]
  have hinfo : trim (trimEnd (' ' :: f.info)) = f.info := by
    rw [Text.trim_trimEnd]
    exact (Text.trim_blank_append hspace f.info).trans f.info_trimmed
  have hsummary : trim (' ' :: f.summary) = trim f.summary := Text.trim_blank_append hspace _
  have hfinding : f.parsed.finding f.row f.column "black" =
      f.diagnostic (Text.afterLast ' ' f.path.chars) := by
    simp only [Failure.finding, parsed, diagnostic, hlevel, hinfo, hsummary, Text.afterLast_append]
  rw [OneLineFormat.record?_eq_parseLine?, ← hfinding]
  exact OneLineFormat.unformatted?_eq_some_iff.2 ⟨f.parsed, f.row, f.column,
    Text.position?_append_decimal hspace f.row_ne_zero,
    Text.position?_append_decimal (List.forall_mem_nil _) f.column_ne_zero, rfl⟩

theorem newline_not_mem_line : '\n' ∉ f.line := by
  simp [line, newline_not_mem_cannotFormat, f.level_newline_free, f.path.newline_free,
    f.summary_newline_free, f.info_newline_free, Text.not_mem_decimal]

theorem records_line {text : List Char} (h : Text.Written [f.line] text) :
    (oneLine .blackErrors).records (Text.Utf8.encode text) =
      [f.diagnostic (Text.afterLast ' ' f.path.chars)] := by
  rw [OneLineFormat.records_of_written h (List.forall_mem_singleton.2 f.newline_not_mem_line),
    List.filterMap_cons_some f.record?_line, List.filterMap_nil]

theorem diagnostic_injective {file file' : List Char}
    (h : f.diagnostic file = f.diagnostic file') : file = file' :=
  String.ofList_injective (congrArg Diagnostic.file h)

end PrintedFailure

/-! ### Pydocstyle -/

/-- A record of pydocstyle. -/
structure PrintedFinding where
  path : PrintedPath
  row : UInt32
  context : List Char
  indent : List Char
  message : List Char
  row_ne_zero : row ≠ 0
  context_newline_free : '\n' ∉ context
  indent_ne_nil : indent ≠ []
  indent_blank : ∀ c ∈ indent, isBlank c = true
  indent_newline_free : '\n' ∉ indent
  message_newline_free : '\n' ∉ message
  message_trimmed : trim message = message

namespace PrintedFinding

variable (f : PrintedFinding)

def header : List Char := f.path.chars ++ ':' :: (decimal f.row.toNat ++ ' ' :: f.context)

def lines : List (List Char) := [f.header, f.indent ++ f.message]

def diagnostic : Diagnostic :=
  .error (String.ofList f.path.chars) f.row 1 "pydocstyle" (String.ofList f.message)

theorem newline_not_mem_of_mem_lines : ∀ l ∈ f.lines, '\n' ∉ l := by
  simp [lines, header, f.path.newline_free, f.context_newline_free, f.indent_newline_free,
    f.message_newline_free, Text.not_mem_decimal]

/-- A path without white space is the file of a header. -/
def headerOf (h : ∀ c ∈ f.path.chars, isBlank c = false) : Docstyle.Header where
  file := f.path.chars
  number := decimal f.row.toNat
  context := ' ' :: f.context
  file_word := h
  number_word _ hc := Text.isBlank_of_isDigit (Text.isDigit_of_mem_decimal hc)
  file_free := f.path.colon_free
  number_free := Text.not_mem_decimal rfl _
  context_apart _ hc := Option.some.inj hc ▸ rfl

theorem line_headerOf (h : ∀ c ∈ f.path.chars, isBlank c = false) :
    (f.headerOf h).line = f.header := by
  simp [Docstyle.Header.line, Docstyle.Header.location, headerOf, header]

theorem records_of_word (h : ∀ c ∈ f.path.chars, isBlank c = false) {text : List Char}
    (hwritten : Text.Written f.lines text) :
    docstyle.records (Text.Utf8.encode text) = [f.diagnostic] := by
  have hlines : Docstyle.Reading.lines ⟨[.pair (f.headerOf h) (f.indent ++ f.message)], none⟩ =
      f.lines := by
    rw [lines, ← f.line_headerOf h]
    rfl
  have hrow : (f.headerOf h).row? = some f.row :=
    Text.position?_append_decimal (List.forall_mem_nil _) f.row_ne_zero
  have hmessage : trim (f.indent ++ f.message) = f.message :=
    (Text.trim_blank_append f.indent_blank _).trans f.message_trimmed
  have hrecord : (Docstyle.Entry.pair (f.headerOf h) (f.indent ++ f.message)).record? =
      some f.diagnostic := by
    rw [Docstyle.Entry.record?, hrow, hmessage]
    rfl
  have hfree := f.newline_not_mem_of_mem_lines
  rw [← hlines] at hwritten hfree
  rw [(Docstyle.records_of_written hwritten hfree).1]
  exact List.filterMap_cons_some hrecord

/-- A path with white space in it makes its line no header, since the first word ends within it. -/
theorem not_isHeader_header {c : Char} (hc : c ∈ f.path.chars) (h : isBlank c = true) :
    ¬Docstyle.IsHeader f.header := by
  have hcut : Text.cut? ':' (Text.leadingWord f.header) = none := by
    rw [header, Text.leadingWord_append_of_mem hc h, Text.cut?_eq_none_iff]
    exact fun hmem => f.path.colon_free ((Text.leadingWord_sublist _).mem hmem)
  rw [← Docstyle.splitHeader?_eq_none_iff, splitHeader?, hcut]

theorem records_of_blank {c : Char} (hc : c ∈ f.path.chars) (h : isBlank c = true)
    {text : List Char} (hwritten : Text.Written f.lines text) :
    docstyle.records (Text.Utf8.encode text) = [] := by
  have hindented : ∀ d ∈ (f.indent ++ f.message).head?, isBlank d = true := by
    obtain ⟨b, t, hindent⟩ := List.exists_cons_of_ne_nil f.indent_ne_nil
    intro d hd
    rw [hindent] at hd
    exact Option.some.inj hd ▸ f.indent_blank b (hindent ▸ List.mem_cons_self)
  have hmessage := Docstyle.not_isHeader_of_indented hindented
  have hlines : Docstyle.Reading.lines ⟨[.stray f.header (f.not_isHeader_header hc h),
      .stray (f.indent ++ f.message) hmessage], none⟩ = f.lines := rfl
  exact (Docstyle.records_of_written (hlines ▸ hwritten)
    (hlines ▸ f.newline_not_mem_of_mem_lines)).1

end PrintedFinding

/-! ### Both formats -/

/-- Black's failure is one record, which has the path as it was printed if and only if no space
stands in it, and otherwise what follows the last space. Pydocstyle's two lines are one record with
the path as it was printed if no white space stands in it, and otherwise none. -/
theorem records_of_printed_paths (f : PrintedFailure) (g : PrintedFinding) {failed found : List Char}
    (hfailed : Text.Written [f.line] failed) (hfound : Text.Written g.lines found) :
    ((oneLine .blackErrors).records (Text.Utf8.encode failed) =
        [f.diagnostic (Text.afterLast ' ' f.path.chars)] ∧
      ((oneLine .blackErrors).records (Text.Utf8.encode failed) = [f.diagnostic f.path.chars] ↔
        ' ' ∉ f.path.chars)) ∧
    (docstyle.records (Text.Utf8.encode found) = [g.diagnostic] ↔
      ∀ c ∈ g.path.chars, isBlank c = false) ∧
    (docstyle.records (Text.Utf8.encode found) = [] ↔ ∃ c ∈ g.path.chars, isBlank c = true) := by
  constructor
  · have hrecords := f.records_line hfailed
    refine ⟨hrecords, ?_⟩
    rw [hrecords, ← Text.afterLast_eq_self_iff]
    constructor
    · exact fun h => f.diagnostic_injective (List.cons.inj h).1
    · exact fun h => by rw [h]
  · by_cases hword : ∀ c ∈ g.path.chars, isBlank c = false
    · have hrecords := g.records_of_word hword hfound
      refine ⟨iff_of_true hrecords hword, iff_of_false (hrecords ▸ List.cons_ne_nil _ _) ?_⟩
      rintro ⟨c, hc, hblank⟩
      rw [hword c hc] at hblank
      cases hblank
    · obtain ⟨c, hc, hblank⟩ : ∃ c ∈ g.path.chars, isBlank c = true := by
        simpa using hword
      have hrecords := g.records_of_blank hc hblank hfound
      exact ⟨iff_of_false (hrecords ▸ (List.cons_ne_nil _ _).symm) hword,
        iff_of_true hrecords ⟨c, hc, hblank⟩⟩

/-- A path of two words. -/
def spaced : PrintedPath where
  chars := "my file.py".toList
  ne_nil := by decide
  colon_free := by decide
  newline_free := by decide
  trimmed := by decide

def plain : PrintedPath where
  chars := "src/a.py".toList
  ne_nil := by decide
  colon_free := by decide
  newline_free := by decide
  trimmed := by decide

/-- The failure to parse some file. -/
def unparsed (path : PrintedPath) : PrintedFailure where
  level := "error".toList
  path := path
  summary := "Cannot parse".toList
  row := 12
  column := 4
  info := "def f(".toList
  level_colon_free := by decide
  level_newline_free := by decide
  summary_colon_free := by decide
  summary_newline_free := by decide
  row_ne_zero := by decide
  column_ne_zero := by decide
  info_newline_free := by decide
  info_trimmed := by decide

/-- A missing docstring in some file. -/
def undocumented (path : PrintedPath) : PrintedFinding where
  path := path
  row := 1
  context := "at module level:".toList
  indent := "        ".toList
  message := "D100: Missing docstring".toList
  row_ne_zero := by decide
  context_newline_free := by decide
  indent_ne_nil := by decide
  indent_blank := by simp [isBlank]
  indent_newline_free := by decide
  message_newline_free := by decide
  message_trimmed := by decide

theorem reports_printed_path_plain :
    (oneLine .blackErrors).records (Text.Utf8.encode (Text.unlines [(unparsed plain).line])) =
        [⟨.error, "src/a.py", 12, 4, "black", "Cannot parse", "def f("⟩] ∧
      docstyle.records (Text.Utf8.encode (Text.unlines (undocumented plain).lines)) =
        [⟨.error, "src/a.py", 1, 1, "pydocstyle", "", "D100: Missing docstring"⟩] := by
  have hword : ∀ c ∈ "src/a.py".toList, isBlank c = false := by simp [isBlank]
  obtain ⟨⟨-, hblack⟩, hdocstyle, -⟩ := records_of_printed_paths (unparsed plain)
    (undocumented plain) (Text.written_unlines _) (Text.written_unlines _)
  exact ⟨hblack.2 (by decide), hdocstyle.2 hword⟩

/-- The record of black names a file that is not there, and there is none of pydocstyle. -/
theorem records_spaced :
    (oneLine .blackErrors).records (Text.Utf8.encode
        "error: cannot format my file.py: Cannot parse: 12:4: def f(\n".toList) =
        [⟨.error, "file.py", 12, 4, "black", "Cannot parse", "def f("⟩] ∧
      (unparsed spaced).diagnostic spaced.chars =
        ⟨.error, "my file.py", 12, 4, "black", "Cannot parse", "def f("⟩ ∧
      docstyle.records (Text.Utf8.encode
        "my file.py:1 at module level:\n        D100: Missing docstring\n".toList) = [] := by
  refine ⟨?_, rfl, ?_⟩
  · exact (unparsed spaced).records_line (Text.written_unlines _)
  · exact (undocumented spaced).records_of_blank (c := ' ') (by decide) rfl (Text.written_unlines _)

end LintReport.Parser
