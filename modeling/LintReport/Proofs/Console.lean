import LintReport.Diagnostic.Console
import LintReport.Proofs.Lines
import LintReport.Proofs.Numerals

/-! Diagnostics on the console. Headline and body share the lines of one message: without a title
the first line is the end of the headline and the body begins with the second, with a title the
body has them all. So each line is shown once, in its place, whatever is in it; and colour shows
nowhere but around the severity. -/

namespace LintReport.Diagnostic.Console

open Text (decimal lines unlines)

variable {d : Diagnostic}

/-! ### The message -/

/-- How the message is divided between the end of the headline and the lines below it. -/
structure Shows (d : Diagnostic) (last : List Char) (below : List (List Char)) : Prop where
  untitled : d.title = "" → d.message ≠ "" → lines d.message.toList = last :: below
  silent : d.title = "" → d.message = "" → last = [] ∧ below = []
  titled : d.title ≠ "" → last = d.title.toList ∧ below = lines d.message.toList

theorem shows_layout (d : Diagnostic) : Shows d (layout d).1 (layout d).2 := by
  unfold layout
  refine ⟨?_, ?_, ?_⟩
  · intro htitle hmessage
    have hne : lines d.message.toList ≠ [] := by
      rw [ne_eq, Text.lines_eq_nil_iff]
      simpa using hmessage
    obtain ⟨first, rest, hlines⟩ := List.exists_cons_of_ne_nil hne
    rw [if_pos htitle, hlines]
    rfl
  · intro htitle hmessage
    rw [if_pos htitle, hmessage, String.toList_empty, Text.lines_nil]
    exact ⟨rfl, rfl⟩
  · intro htitle
    rw [if_neg htitle]
    exact ⟨rfl, rfl⟩

/-- Neither end of the headline nor a line below it goes over a line end. -/
theorem newline_not_mem_layout (htitle : '\n' ∉ d.title.toList) :
    '\n' ∉ (layout d).1 ∧ ∀ l ∈ (layout d).2, '\n' ∉ l := by
  have hlines := Text.newline_not_mem_of_mem_lines d.message.toList
  unfold layout
  split
  · cases h : lines d.message.toList with
    | nil => exact ⟨List.not_mem_nil, List.forall_mem_nil _⟩
    | cons first rest =>
      rw [h] at hlines
      exact List.forall_mem_cons.1 hlines
  · exact ⟨htitle, hlines⟩

/-! ### The headline -/

/-- The file, the line and the column, as compilers print them. -/
def place (d : Diagnostic) : List Char :=
  d.file.toList ++ ':' :: decimal d.line.toNat ++ ':' :: decimal d.column.toNat ++ ": ".toList

/-- What stands between the severity and the end of the headline. -/
def origin (d : Diagnostic) : List Char := '[' :: d.source.toList ++ "]: ".toList

/-- A label between the escape sequences that begin and end its colour. -/
def colored (s : Severity) (label : List Char) : List Char :=
  "\x1b[".toList ++ (colorCode s).toList ++ ['m'] ++ label ++ "\x1b[0m".toList

theorem severityText_true (s : Severity) : severityText true s = colored s s.label.toList := rfl

theorem severityText_false (s : Severity) : severityText false s = s.label.toList := rfl

theorem headline_eq (color : Bool) (d : Diagnostic) :
    headline color d = place d ++ severityText color d.severity ++ origin d ++ (layout d).1 := by
  simp [headline, place, origin]

theorem newline_not_mem_place (hfile : '\n' ∉ d.file.toList) : '\n' ∉ place d := by
  have hdecimal := Text.not_mem_decimal (c := '\n') rfl
  simp [place, hfile, hdecimal]

theorem newline_not_mem_severityText (color : Bool) (s : Severity) :
    '\n' ∉ severityText color s := by
  cases color <;> cases s <;> decide

theorem newline_not_mem_origin (hsource : '\n' ∉ d.source.toList) : '\n' ∉ origin d := by
  simp [origin, hsource]

/-! ### The rendering -/

/-- The rendering, line by line. -/
theorem splitOn_render (color : Bool) (hfile : '\n' ∉ d.file.toList)
    (hsource : '\n' ∉ d.source.toList) (htitle : '\n' ∉ d.title.toList) :
    (render color d).toList.splitOn '\n' =
      (place d ++ severityText color d.severity ++ origin d ++ (layout d).1) ::
        (layout d).2.map (bar ++ ·) ++ [[]] := by
  have hbar : '\n' ∉ bar := by decide
  obtain ⟨hlast, hbelow⟩ := newline_not_mem_layout htitle
  have hheadline : '\n' ∉ headline color d := by
    simp only [headline_eq, List.mem_append, not_or]
    exact ⟨⟨⟨newline_not_mem_place hfile, newline_not_mem_severityText color d.severity⟩,
      newline_not_mem_origin hsource⟩, hlast⟩
  rw [render, String.toList_ofList, Text.splitOn_unlines, headline_eq]
  refine List.forall_mem_cons.2 ⟨hheadline, List.forall_mem_map.2 fun l hl hmem => ?_⟩
  exact (List.mem_append.1 hmem).elim hbar (hbelow l hl)

theorem getLast?_render (color : Bool) (d : Diagnostic) :
    (render color d).toList.getLast? = some '\n' := by
  rw [render, String.toList_ofList]
  exact Text.getLast?_unlines (List.cons_ne_nil _ _)

/-- A rendering is a headline and lines behind a bar, with a newline behind each. The message is
divided between the end of the headline and these lines, which show the same with colour and
without: what differs is how the severity is written. -/
theorem message_shown_once (hfile : '\n' ∉ d.file.toList) (hsource : '\n' ∉ d.source.toList)
    (htitle : '\n' ∉ d.title.toList) :
    (∀ color, (render color d).toList.getLast? = some '\n') ∧
    ∃ last below, Shows d last below ∧
      (render false d).toList.splitOn '\n' =
        (place d ++ d.severity.label.toList ++ origin d ++ last) ::
          below.map (bar ++ ·) ++ [[]] ∧
      (render true d).toList.splitOn '\n' =
        (place d ++ colored d.severity d.severity.label.toList ++ origin d ++ last) ::
          below.map (bar ++ ·) ++ [[]] := by
  refine ⟨fun color => getLast?_render color d, (layout d).1, (layout d).2, shows_layout d, ?_, ?_⟩
  · rw [splitOn_render false hfile hsource htitle, severityText_false]
  · rw [splitOn_render true hfile hsource htitle, severityText_true]

/-- A diagnostic without a title whose message begins with an empty line, has lines that look like
those of a rendering, and ends in a carriage return. -/
def untitled : Diagnostic where
  severity := .error
  file := "a.py"
  line := 3
  column := 1
  source := "black"
  title := ""
  message := "\r\n    | a\x1b[0m\r\n\nb\r"

theorem message_shown_once_untitled :
    '\n' ∉ untitled.file.toList ∧ '\n' ∉ untitled.source.toList ∧ '\n' ∉ untitled.title.toList ∧
      (render true untitled).toList.splitOn '\n' =
        ["a.py:3:1: \x1b[1;31merror\x1b[0m[black]: ".toList, "    |     | a\x1b[0m".toList,
          "    | ".toList, "    | b\r".toList, []] := by
  have hfile : '\n' ∉ untitled.file.toList := by decide
  have hsource : '\n' ∉ untitled.source.toList := by decide
  have htitle : '\n' ∉ untitled.title.toList := by decide
  have hlines : lines untitled.message.toList =
      [[], "    | a\x1b[0m".toList, [], "b\r".toList] := by decide +kernel
  obtain ⟨-, last, below, hshows, -, hcolored⟩ := message_shown_once hfile hsource htitle
  obtain ⟨rfl, rfl⟩ := List.cons.inj (hlines.symm.trans (hshows.untitled rfl (by decide)))
  exact ⟨hfile, hsource, htitle, hcolored.trans (by decide)⟩

end LintReport.Diagnostic.Console
