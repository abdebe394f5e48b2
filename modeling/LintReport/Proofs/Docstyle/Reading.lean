import LintReport.Proofs.Cursor
import LintReport.Proofs.Docstyle.Header
import LintReport.Proofs.Polling
import LintReport.Proofs.Utf8

/-! How output in two-line records is cut up. A header and the line behind it make a pair, whatever
that line is; a line that is no header is a stray one; and a header at the end is left without its
message. Every output is cut up in exactly one way. A pair is a record if the number of its header
can be read. Everything else is skipped and counts once, also a pair, which is two lines. -/

namespace LintReport.Parser.Docstyle

open Polling

/-- A part of some output that is read at once. -/
inductive Entry where
  | pair (header : Header) (message : List Char)
  | stray (line : List Char) (h : ¬IsHeader line)

namespace Entry

def lines : Entry → List (List Char)
  | pair header message => [header.line, message]
  | stray line _ => [line]

def record? : Entry → Option Diagnostic
  | pair header message => header.row?.map fun row =>
    .error (String.ofList header.file) row 1 "pydocstyle" (String.ofList (Text.trim message))
  | stray _ _ => none

/-- A header whose number cannot be read, with the line that is taken as its message. -/
def isUnnumbered : Entry → Bool
  | pair header _ => header.row?.isNone
  | stray _ _ => false

end Entry

/-- Output cut up: what is read of it, and a header at its end with no line behind it. -/
structure Reading where
  entries : List Entry
  leftover : Option Header

namespace Reading

def lines (r : Reading) : List (List Char) :=
  r.entries.flatMap Entry.lines ++ (r.leftover.map Header.line).toList

def records (r : Reading) : List Diagnostic := r.entries.filterMap Entry.record?

def skipped (r : Reading) : Nat :=
  r.entries.countP (fun e => e.record?.isNone) + r.leftover.toList.length

/-- The reading with one more entry in front. -/
def cons (e : Entry) (r : Reading) : Reading := { r with entries := e :: r.entries }

@[elab_as_elim]
theorem consInduction {motive : Reading → Prop} (nil : ∀ leftover, motive ⟨[], leftover⟩)
    (cons : ∀ e r, motive r → motive (cons e r)) (r : Reading) : motive r := by
  obtain ⟨entries, leftover⟩ := r
  induction entries with
  | nil => exact nil leftover
  | cons e entries ih => exact cons e ⟨entries, leftover⟩ ih

theorem lines_cons (e : Entry) (r : Reading) : (cons e r).lines = e.lines ++ r.lines :=
  List.append_assoc ..

theorem records_cons (e : Entry) (r : Reading) :
    (cons e r).records = e.record?.toList ++ r.records := by
  cases h : e.record? with
  | none => exact List.filterMap_cons_none h
  | some d => exact List.filterMap_cons_some h

theorem skipped_cons (e : Entry) (r : Reading) :
    (cons e r).skipped = r.skipped + if e.record? = none then 1 else 0 := by
  simp only [skipped, cons, List.countP_cons, Option.isNone_iff_eq_none]
  omega

/-- The reading with more entries in front. -/
def append (es : List Entry) (r : Reading) : Reading := { r with entries := es ++ r.entries }

theorem lines_append (es : List Entry) (r : Reading) :
    (append es r).lines = es.flatMap Entry.lines ++ r.lines := by
  rw [lines, append, List.flatMap_append, List.append_assoc]
  rfl

theorem records_append (es : List Entry) (r : Reading) :
    (append es r).records = es.filterMap Entry.record? ++ r.records := List.filterMap_append

theorem records_append_of_forall {es : List Entry} (h : ∀ e ∈ es, e.record? = none)
    (r : Reading) : (append es r).records = r.records := by
  rw [records_append, List.filterMap_eq_nil_iff.2 h, List.nil_append]

/-! ### Every output has one reading -/

theorem exists_reading : ∀ ls : List (List Char), ∃ r : Reading, r.lines = ls
  | [] => ⟨⟨[], none⟩, rfl⟩
  | l :: ls => by
    by_cases h : IsHeader l
    · obtain ⟨header, rfl⟩ := h
      cases ls with
      | nil => exact ⟨⟨[], some header⟩, rfl⟩
      | cons message ls =>
        obtain ⟨r, rfl⟩ := exists_reading ls
        exact ⟨cons (.pair header message) r, lines_cons _ r⟩
    · obtain ⟨r, rfl⟩ := exists_reading ls
      exact ⟨cons (.stray l h) r, lines_cons _ r⟩

theorem eq_of_lines_nil {r : Reading} (h : r.lines = []) : r = ⟨[], none⟩ := by
  obtain ⟨_ | ⟨_ | _, entries⟩, _ | _⟩ := r <;> first | rfl | cases h

theorem exists_of_lines_stray {r : Reading} {l : List Char} {ls : List (List Char)}
    (hl : ¬IsHeader l) (h : r.lines = l :: ls) : ∃ s, r = cons (.stray l hl) s ∧ s.lines = ls := by
  obtain ⟨_ | ⟨e, entries⟩, leftover⟩ := r
  · cases leftover with
    | none => cases h
    | some header => exact absurd ⟨header, (List.cons.inj h).1⟩ hl
  · cases e with
    | pair header message => exact absurd ⟨header, (List.cons.inj h).1⟩ hl
    | stray line hline =>
      obtain ⟨rfl, hrest⟩ := List.cons.inj h
      exact ⟨⟨entries, leftover⟩, rfl, hrest⟩

theorem cases_of_lines_header {r : Reading} {header : Header} {ls : List (List Char)}
    (h : r.lines = header.line :: ls) :
    (ls = [] ∧ r = ⟨[], some header⟩) ∨
    ∃ message s, ls = message :: s.lines ∧ r = cons (.pair header message) s := by
  obtain ⟨_ | ⟨e, entries⟩, leftover⟩ := r
  · cases leftover with
    | none => cases h
    | some header' =>
      obtain ⟨hline, hnil⟩ := List.cons.inj h
      exact .inl ⟨hnil.symm, by rw [Header.line_injective hline]⟩
  · cases e with
    | pair header' message =>
      obtain ⟨hline, hrest⟩ := List.cons.inj h
      exact .inr ⟨message, ⟨entries, leftover⟩, hrest.symm, by rw [Header.line_injective hline]; rfl⟩
    | stray line hline => exact absurd ⟨header, (List.cons.inj h).1.symm⟩ hline

/-- Some lines are cut up in at most one way. -/
theorem lines_injective {r s : Reading} (h : r.lines = s.lines) : r = s := by
  obtain ⟨entries, leftover⟩ := s
  induction entries generalizing r with
  | nil =>
    cases leftover with
    | none => exact eq_of_lines_nil h
    | some header =>
      rcases cases_of_lines_header h with ⟨-, hr⟩ | ⟨message, t, hnil, -⟩
      · exact hr
      · cases hnil
  | cons e entries ih =>
    cases e with
    | pair header message =>
      rcases cases_of_lines_header h with ⟨hnil, -⟩ | ⟨message', t, hrest, rfl⟩
      · cases hnil
      · obtain ⟨rfl, ht⟩ := List.cons.inj hrest
        rw [ih ht.symm]
        rfl
    | stray line hline =>
      obtain ⟨t, rfl, ht⟩ := exists_of_lines_stray hline h
      rw [ih ht]
      rfl

/-! ### Polling a reading -/

/-- An entry without a record is passed over and counts once. -/
theorem nextFrom_of_none {e : Entry} (h : e.record? = none) (ls : List (List Char)) (n : Nat) :
    DocstyleStream.nextFrom (e.lines ++ ls) n = DocstyleStream.nextFrom ls (n + 1) := by
  cases e with
  | pair header message =>
    have hrow : Text.position? header.number = none := Option.map_eq_none_iff.1 h
    show DocstyleStream.nextFrom (header.line :: message :: ls) n = _
    simp only [DocstyleStream.nextFrom, header.splitHeader?_line, hrow]
  | stray line hline =>
    show DocstyleStream.nextFrom (line :: ls) n = _
    simp only [DocstyleStream.nextFrom, splitHeader?_eq_none_iff.2 hline]

theorem nextFrom_of_some {e : Entry} {d : Diagnostic} (h : e.record? = some d)
    (ls : List (List Char)) (n : Nat) :
    DocstyleStream.nextFrom (e.lines ++ ls) n = (some d, { rest := ls, skipped := n }) := by
  cases e with
  | pair header message =>
    obtain ⟨row, hrow, rfl⟩ := Option.map_eq_some_iff.1 h
    have hrow : Text.position? header.number = some row := hrow
    show DocstyleStream.nextFrom (header.line :: message :: ls) n = _
    simp only [DocstyleStream.nextFrom, header.splitHeader?_line, hrow]
    rfl
  | stray line hline => cases h

theorem nextFrom_leftover (header : Header) (n : Nat) :
    DocstyleStream.nextFrom [header.line] n = (none, { rest := [], skipped := n + 1 }) := by
  simp only [DocstyleStream.nextFrom, header.splitHeader?_line]

/-- Polling some output gives the records of its reading and counts the rest. -/
theorem exhausts (r : Reading) (n : Nat) :
    Exhausts Stream.next (.docstyle { rest := r.lines, skipped := n }) r.records
      (.docstyle { rest := [], skipped := n + r.skipped }) := by
  induction r using consInduction generalizing n with
  | nil leftover =>
    cases leftover with
    | none => exact .done rfl rfl
    | some header =>
      have hnext : Stream.next (.docstyle { rest := [header.line], skipped := n }) =
          (none, .docstyle { rest := [], skipped := n + 1 }) := by
        rw [Stream.next, DocstyleStream.next, nextFrom_leftover]
        rfl
      exact .done hnext rfl
  | cons e r ih =>
    rw [lines_cons, records_cons, skipped_cons]
    cases h : e.record? with
    | none =>
      have hnext : Stream.next (.docstyle { rest := e.lines ++ r.lines, skipped := n }) =
          Stream.next (.docstyle { rest := r.lines, skipped := n + 1 }) := by
        simp only [Stream.next, DocstyleStream.next, nextFrom_of_none h]
      rw [if_pos rfl, Nat.add_comm r.skipped, ← Nat.add_assoc]
      exact (ih (n + 1)).congr hnext
    | some d =>
      have hnext : Stream.next (.docstyle { rest := e.lines ++ r.lines, skipped := n }) =
          (some d, .docstyle { rest := r.lines, skipped := n }) := by
        simp only [Stream.next, DocstyleStream.next, nextFrom_of_some h]
        rfl
      exact .more hnext (ih n)

end Reading

/-- What has been read of some output is its reading. -/
theorem records_of_lines {r : Reading} {output : Bytes} (h : docstyle.lines output = r.lines) :
    docstyle.records output = r.records ∧
      (docstyle.stream output).exhausted.skipped = r.skipped := by
  have hexhausts := r.exhausts 0
  rw [← h] at hexhausts
  obtain ⟨hrecords, hexhausted⟩ := records_of_exhausts docstyle output hexhausts
  exact ⟨hrecords, (congrArg Stream.skipped hexhausted).trans (Nat.zero_add _)⟩

/-! ### Written output -/

/-- Streams of lines that look the same, with the same count. -/
inductive Alike : Stream → Stream → Prop
  | mk {ls ms : List (List Char)} (h : ls.map view = ms.map view) (skipped : Nat) :
    Alike (.docstyle { rest := ls, skipped }) (.docstyle { rest := ms, skipped })

theorem Alike.next {s t : Stream} (h : Alike s t) :
    s.next.1 = t.next.1 ∧ Alike s.next.2 t.next.2 := by
  obtain ⟨hview, n⟩ := h
  rename_i ls ms
  simp only [Stream.next, DocstyleStream.next, Prod.map_fst, Prod.map_snd, id]
  fun_induction DocstyleStream.nextFrom ls n generalizing ms with
  | case1 n =>
    obtain rfl := List.map_eq_nil_iff.1 hview.symm
    exact ⟨rfl, .mk rfl n⟩
  | case2 header rest n hheader ih =>
    obtain ⟨header', rest', rfl, hheader', hrest⟩ := List.map_eq_cons_iff.1 hview.symm
    have hnone : splitHeader? header' = none := (congrArg Prod.fst hheader').trans hheader
    simp only [DocstyleStream.nextFrom, hnone]
    exact ih hrest.symm
  | case3 header n file number hheader =>
    obtain ⟨header', rest', rfl, hheader', hrest⟩ := List.map_eq_cons_iff.1 hview.symm
    obtain rfl := List.map_eq_nil_iff.1 hrest
    have hsome : splitHeader? header' = some (file, number) :=
      (congrArg Prod.fst hheader').trans hheader
    simp only [DocstyleStream.nextFrom, hsome]
    exact ⟨trivial, .mk rfl (n + 1)⟩
  | case4 header n file number hheader message rest row hrow =>
    obtain ⟨header', rest', rfl, hheader', hrest⟩ := List.map_eq_cons_iff.1 hview.symm
    obtain ⟨message', rest'', rfl, hmessage', hrest⟩ := List.map_eq_cons_iff.1 hrest
    have hsome : splitHeader? header' = some (file, number) :=
      (congrArg Prod.fst hheader').trans hheader
    have htrim : Text.trim message' = Text.trim message := congrArg Prod.snd hmessage'
    simp only [DocstyleStream.nextFrom, hsome, hrow, htrim]
    exact ⟨trivial, .mk hrest.symm n⟩
  | case5 header n file number hheader message rest hrow ih =>
    obtain ⟨header', rest', rfl, hheader', hrest⟩ := List.map_eq_cons_iff.1 hview.symm
    obtain ⟨message', rest'', rfl, -, hrest⟩ := List.map_eq_cons_iff.1 hrest
    have hsome : splitHeader? header' = some (file, number) :=
      (congrArg Prod.fst hheader').trans hheader
    simp only [DocstyleStream.nextFrom, hsome, hrow]
    exact ih hrest.symm

theorem Alike.skipped_eq {s t : Stream} (h : Alike s t) : t.skipped = s.skipped := by
  obtain ⟨-, skipped⟩ := h
  rfl

/-- Output that is written from the lines of a reading is read so, whatever ends its lines. -/
theorem records_of_written {r : Reading} {text : List Char} (h : Text.Written r.lines text)
    (hfree : ∀ l ∈ r.lines, '\n' ∉ l) :
    docstyle.records (Text.Utf8.encode text) = r.records ∧
      (docstyle.stream (Text.Utf8.encode text)).exhausted.skipped = r.skipped := by
  have hlines : docstyle.lines (Text.Utf8.encode text) = Text.lines text :=
    congrArg Text.lines (Decoding.read_strict_encode text)
  have halike : Alike (.docstyle { rest := r.lines, skipped := 0 })
      (docstyle.stream (Text.Utf8.encode text)) := by
    rw [stream_eq, hlines]
    exact .mk (h.map_lines view_withoutReturn hfree).symm 0
  obtain ⟨hlist, hexhausted⟩ := Stream.exhausted_related (fun _ _ => Alike.next) halike
  obtain ⟨hrecords, hend⟩ := Stream.eq_of_exhausts (r.exhausts 0)
  rw [hend] at hexhausted
  exact ⟨hlist.symm.trans hrecords, hexhausted.skipped_eq.trans (Nat.zero_add _)⟩

/-! ### Accounting for the lines -/

theorem Entry.length_lines (e : Entry) :
    e.lines.length = 2 * e.record?.toList.length + (if e.record? = none then 1 else 0) +
      if e.isUnnumbered then 1 else 0 := by
  cases e with
  | pair header message =>
    cases h : header.row? <;> simp [lines, record?, isUnnumbered, h]
  | stray line hline => rfl

/-- Two lines for each record and one for each thing skipped leave out one line of each pair whose
number cannot be read. -/
theorem Reading.length_lines (r : Reading) :
    r.lines.length =
      2 * r.records.length + r.skipped + r.entries.countP Entry.isUnnumbered := by
  induction r using consInduction with
  | nil leftover => cases leftover <;> rfl
  | cons e r ih =>
    have he := e.length_lines
    have hcount : (cons e r).entries.countP Entry.isUnnumbered =
        r.entries.countP Entry.isUnnumbered + if e.isUnnumbered then 1 else 0 := List.countP_cons
    rw [lines_cons, records_cons, skipped_cons, hcount, List.length_append, List.length_append]
    omega

/-- The lines of any output, which have one reading, are two for each record and one for each count
of those skipped, and one more for each pair whose number cannot be read. So every line is accounted
for if and only if the output has no such pair. -/
theorem accounts_for_lines_iff (output : Bytes) :
    ∃ r : Reading, r.lines = docstyle.lines output ∧
      (∀ s : Reading, s.lines = docstyle.lines output → s = r) ∧
      2 * (docstyle.records output).length + (docstyle.stream output).exhausted.skipped +
        r.entries.countP Entry.isUnnumbered = (docstyle.lines output).length ∧
      (2 * (docstyle.records output).length + (docstyle.stream output).exhausted.skipped =
        (docstyle.lines output).length ↔ ∀ e ∈ r.entries, e.isUnnumbered = false) := by
  obtain ⟨r, hlines⟩ := Reading.exists_reading (docstyle.lines output)
  obtain ⟨hrecords, hskipped⟩ := records_of_lines hlines.symm
  have hbalance := r.length_lines
  refine ⟨r, hlines, fun s hs => Reading.lines_injective (hs.trans hlines.symm), ?_, ?_⟩
  · rw [hrecords, hskipped, ← hlines]
    exact hbalance.symm
  · have hnone : (∀ e ∈ r.entries, e.isUnnumbered = false) ↔
        r.entries.countP Entry.isUnnumbered = 0 := by
      simp only [List.countP_eq_zero, Bool.not_eq_true]
    rw [hrecords, hskipped, ← hlines, hnone]
    omega

/-- A header whose number is none. -/
def unnumbered : Header where
  file := "a.py".toList
  number := "x".toList
  context := " in f:".toList
  file_word := by simp [Text.isBlank]
  number_word := by simp [Text.isBlank]
  file_free := by decide
  number_free := by decide
  context_apart _ hc := Option.some.inj hc ▸ rfl

/-- Both lines of a pair without a number are dropped, and one is counted. -/
theorem unaccounted_unnumbered :
    let output := Text.Utf8.encode "a.py:x in f:\n    D103: m\n".toList
    docstyle.records output = [] ∧ (docstyle.stream output).exhausted.skipped = 1 ∧
      (docstyle.lines output).length = 2 ∧
      2 * (docstyle.records output).length + (docstyle.stream output).exhausted.skipped ≠
        (docstyle.lines output).length := by
  intro output
  have hplain : ∀ l ∈ ["a.py:x in f:".toList, "    D103: m".toList],
      '\n' ∉ l ∧ l.getLast? ≠ some '\r' := by simp
  have hlines : docstyle.lines output =
      Reading.lines ⟨[.pair unnumbered "    D103: m".toList], none⟩ :=
    (congrArg Text.lines (Decoding.read_strict_encode _)).trans (Text.lines_unlines_eq_self hplain)
  obtain ⟨hrecords, hskipped⟩ := records_of_lines hlines
  rw [hrecords, hskipped, hlines]
  decide

end LintReport.Parser.Docstyle
