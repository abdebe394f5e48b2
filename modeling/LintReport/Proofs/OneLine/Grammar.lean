import LintReport.Proofs.Fields
import LintReport.Proofs.OneLine.Records

/-! The grammar of the formats with four fields. A line is a record if it can be taken apart into
`file:row:place:message` and its numbers can be read; there is at most one way to take it apart,
since only the message may contain further colons. -/

namespace LintReport.Parser

/-- A line taken apart at its first three colons, the white space at its ends left aside. -/
structure Fields (line : List Char) where
  file : List Char
  row : List Char
  /-- The column, or the level in a format without columns. -/
  place : List Char
  message : List Char
  trim_eq : Text.trim line = file ++ ':' :: (row ++ ':' :: (place ++ ':' :: message))
  file_free : ':' ∉ file
  row_free : ':' ∉ row
  place_free : ':' ∉ place

namespace Fields

variable {line : List Char}

/-- The record of some fields, which has no title. -/
def finding (f : Fields line) (severity : Severity) (row column : UInt32) (source : String) :
    Diagnostic where
  severity := severity
  file := String.ofList f.file
  line := row
  column := column
  source := source
  title := ""
  message := String.ofList (Text.trim f.message)

/-- The text behind the first colon. -/
def behindFile (f : Fields line) : List Char := f.row ++ ':' :: (f.place ++ ':' :: f.message)

/-- The text behind the second colon. -/
def behindRow (f : Fields line) : List Char := f.place ++ ':' :: f.message

theorem cut_file (f : Fields line) : Text.cut? ':' (Text.trim line) = some (f.file, f.behindFile) :=
  Text.cut?_eq_some_iff.2 ⟨f.trim_eq, f.file_free⟩

theorem cut_row (f : Fields line) : Text.cut? ':' f.behindFile = some (f.row, f.behindRow) :=
  Text.cut?_append f.row_free f.behindRow

theorem cut_place (f : Fields line) : Text.cut? ':' f.behindRow = some (f.place, f.message) :=
  Text.cut?_append f.place_free f.message

/-- Three cuts take a line apart. -/
theorem exists_of_cuts {file s row s' place message : List Char}
    (hfile : Text.cut? ':' (Text.trim line) = some (file, s))
    (hrow : Text.cut? ':' s = some (row, s'))
    (hplace : Text.cut? ':' s' = some (place, message)) :
    ∃ f : Fields line, f.file = file ∧ f.row = row ∧ f.place = place ∧ f.message = message := by
  obtain ⟨htrim, hfree⟩ := Text.cut?_eq_some_iff.1 hfile
  obtain ⟨rfl, hfree'⟩ := Text.cut?_eq_some_iff.1 hrow
  obtain ⟨rfl, hfree''⟩ := Text.cut?_eq_some_iff.1 hplace
  exact ⟨⟨file, row, place, message, htrim, hfree, hfree', hfree''⟩, rfl, rfl, rfl, rfl⟩

/-- There is at most one way to take a line apart. -/
instance : Subsingleton (Fields line) where
  allEq f g := by
    have hfile : (f.file, f.behindFile) = (g.file, g.behindFile) :=
      Option.some.inj (f.cut_file.symm.trans g.cut_file)
    obtain ⟨hfile, hbehind⟩ := Prod.mk.inj hfile
    have hrow : (f.row, f.behindRow) = (g.row, g.behindRow) :=
      Option.some.inj (f.cut_row.symm.trans (hbehind ▸ g.cut_row))
    obtain ⟨hrow, hbehind⟩ := Prod.mk.inj hrow
    have hplace : (f.place, f.message) = (g.place, g.message) :=
      Option.some.inj (f.cut_place.symm.trans (hbehind ▸ g.cut_place))
    obtain ⟨hplace, hmessage⟩ := Prod.mk.inj hplace
    cases f
    cases g
    cases hfile
    cases hrow
    cases hplace
    cases hmessage
    rfl

theorem colon_mem (f : Fields line) : ':' ∈ line := by
  have htrim : ':' ∈ Text.trim line := by
    rw [f.trim_eq]
    exact List.mem_append_right _ List.mem_cons_self
  exact (Text.trim_sublist line).mem htrim

end Fields

namespace OneLineFormat

variable {source : String} {line : List Char} {d : Diagnostic}

theorem positioned?_eq_some_iff :
    positioned? source line = some d ↔
      ∃ (f : Fields line) (row column : UInt32), Text.position? f.row = some row ∧
        Text.position? f.place = some column ∧ d = f.finding .error row column source := by
  simp only [positioned?, bind, Option.bind_eq_some_iff, pure, Option.some.injEq]
  constructor
  · rintro ⟨⟨file, s⟩, hfile, ⟨row, s'⟩, hrow, ⟨place, message⟩, hplace, n, hn, m, hm, rfl⟩
    obtain ⟨f, rfl, rfl, rfl, rfl⟩ := Fields.exists_of_cuts hfile hrow hplace
    exact ⟨f, n, m, hn, hm, rfl⟩
  · rintro ⟨f, n, m, hn, hm, rfl⟩
    exact ⟨_, f.cut_file, _, f.cut_row, _, f.cut_place, n, hn, m, hm, rfl⟩

theorem levelled?_eq_some_iff :
    levelled? source line = some d ↔
      ∃ (f : Fields line) (row : UInt32), Text.position? f.row = some row ∧
        d = f.finding (.ofLabel f.place) row 1 source := by
  simp only [levelled?, bind, Option.bind_eq_some_iff, pure, Option.some.injEq]
  constructor
  · rintro ⟨⟨file, s⟩, hfile, ⟨row, s'⟩, hrow, ⟨place, message⟩, hplace, n, hn, rfl⟩
    obtain ⟨f, rfl, rfl, rfl, rfl⟩ := Fields.exists_of_cuts hfile hrow hplace
    exact ⟨f, n, hn, rfl⟩
  · rintro ⟨f, n, hn, rfl⟩
    exact ⟨_, f.cut_file, _, f.cut_row, _, f.cut_place, n, hn, rfl⟩

/-- A line without a colon is no record of any format, whether it is looked at or not. -/
theorem parseLine?_eq_none (format : OneLineFormat) (h : ':' ∉ line) :
    format.parseLine? line = none := by
  have hcut : Text.cut? ':' (Text.trim line) = none :=
    Text.cut?_eq_none_iff.2 fun hmem => h ((Text.trim_sublist line).mem hmem)
  cases format <;> simp [parseLine?, positioned?, levelled?, unformatted?, hcut]

theorem record?_eq_parseLine? (format : OneLineFormat) (line : List Char) :
    format.record? line = format.parseLine? line := by
  unfold record?
  split
  · rfl
  · rename_i h
    exact (format.parseLine?_eq_none h).symm

/-- The records of a format are those of its lines, each read for itself. A line that is taken
apart, in the one way there is, is a record of flake8 or pylint if its row and its column can be
read, and of mypy if its row can be read, whatever its level is; the message keeps its colons. The
test for a colon that comes first turns no record away. -/
theorem records_iff_fields :
    (∀ (format : OneLineFormat) (output : Bytes), (oneLine format).records output =
      (Text.lines (format.decoding.read output)).filterMap format.record?) ∧
    (∀ line, Subsingleton (Fields line)) ∧
    (∀ line d, flake8.record? line = some d ↔
      ∃ (f : Fields line) (row column : UInt32), Text.position? f.row = some row ∧
        Text.position? f.place = some column ∧ d = f.finding .error row column "flake8") ∧
    (∀ line d, pylint.record? line = some d ↔
      ∃ (f : Fields line) (row column : UInt32), Text.position? f.row = some row ∧
        Text.position? f.place = some column ∧ d = f.finding .error row column "pylint") ∧
    (∀ line d, mypy.record? line = some d ↔
      ∃ (f : Fields line) (row : UInt32), Text.position? f.row = some row ∧
        d = f.finding (.ofLabel f.place) row 1 "mypy") ∧
    (∀ line (f : Fields line), (Text.trim f.message).count ':' = f.message.count ':') ∧
    (∀ line, Fields line → ':' ∈ line) ∧
    ∀ (format : OneLineFormat) (line : List Char),
      format.record? line = format.parseLine? line := by
  refine ⟨records_eq_filterMap, fun line => inferInstance, ?_, ?_, ?_, ?_,
    fun line f => f.colon_mem, record?_eq_parseLine?⟩
  · intro line d
    rw [record?_eq_parseLine?]
    exact positioned?_eq_some_iff
  · intro line d
    rw [record?_eq_parseLine?]
    exact positioned?_eq_some_iff
  · intro line d
    rw [record?_eq_parseLine?]
    exact levelled?_eq_some_iff
  · intro line f
    exact Text.count_trim rfl f.message

/-- A level that is not known is an error. -/
example : mypy.record? " m.py:+03: fatal : a: b:\t".toList =
    some (.untitled .error "m.py" 3 1 "mypy" "a: b:") := by decide

end OneLineFormat

end LintReport.Parser
