import LintReport.Proofs.Fields
import LintReport.Proofs.Lines
import LintReport.Proofs.Numerals
import LintReport.Report

/-! Workflow commands, read back. The reader cuts a command at its delimiters and undoes the
escapes one after the other, that of the percent sign last. Escaped text holds none of the
delimiters around it, so whatever a tool prints, a report has one line for each diagnostic, and
that line says what the diagnostic says. -/

namespace LintReport.Diagnostic.WorkflowCommand

open Text (decimal unlines)

/-! ### Undoing escapes -/

/-- The text with `c` in place of each percent sign that `a` and `b` follow. -/
def undo (a b c : Char) : List Char → List Char
  | '%' :: x :: y :: s =>
    if x = a ∧ y = b then c :: undo a b c s else '%' :: undo a b c (x :: y :: s)
  | d :: s => d :: undo a b c s
  | [] => []

def undoMessage (s : List Char) : List Char :=
  undo '2' '5' '%' (undo '0' 'A' '\n' (undo '0' 'D' '\r' s))

def undoProperty (s : List Char) : List Char := undoMessage (undo '2' 'C' ',' (undo '3' 'A' ':' s))

/-- A character other than the percent sign, or a percent sign with two others behind it. -/
inductive IsCode : List Char → Prop
  | plain {d : Char} (h : d ≠ '%') : IsCode [d]
  | escape {x y : Char} (hx : x ≠ '%') (hy : y ≠ '%') : IsCode ['%', x, y]

section Undo
variable {a b c : Char}

theorem undo_cons {d : Char} (h : d ≠ '%') (s : List Char) :
    undo a b c (d :: s) = d :: undo a b c s := by
  rw [undo]
  rintro x y t rfl
  exact absurd rfl h

theorem undo_singleton (d : Char) : undo a b c [d] = [d] := by
  simp [undo]

theorem undo_append {w : List Char} (h : IsCode w) (s : List Char) :
    undo a b c (w ++ s) = undo a b c w ++ undo a b c s := by
  cases h with
  | plain h => simp [undo_cons h, undo]
  | @escape x y hx hy =>
    by_cases hxy : x = a ∧ y = b
    · simp [undo, hxy]
    · simp [undo, hxy, undo_cons hx, undo_cons hy]

/-- Undoing one escape leaves the others as they are. -/
theorem IsCode.undo {w : List Char} (h : IsCode w) (hc : c ≠ '%') : IsCode (undo a b c w) := by
  cases h with
  | plain h =>
    rw [undo_cons h]
    exact .plain h
  | @escape x y hx hy =>
    by_cases hxy : x = a ∧ y = b
    · rw [WorkflowCommand.undo, if_pos hxy]
      exact .plain hc
    · rw [WorkflowCommand.undo, if_neg hxy, undo_cons hx, undo_cons hy]
      exact .escape hx hy

theorem undo_flatMap {f : Char → List Char} (hf : ∀ d, IsCode (f d)) (s : List Char) :
    undo a b c (s.flatMap f) = s.flatMap fun d => undo a b c (f d) := by
  induction s with
  | nil => rfl
  | cons d s ih => rw [List.flatMap_cons, undo_append (hf d), ih, List.flatMap_cons]

end Undo

/-! ### Escaped text -/

/-- The text with `w` in place of each `c`. -/
def replace (c : Char) (w : List Char) (s : List Char) : List Char :=
  s.flatMap fun d => if d = c then w else [d]

theorem replace_flatMap (c : Char) (w : List Char) (f : Char → List Char) (s : List Char) :
    replace c w (s.flatMap f) = s.flatMap fun d => replace c w (f d) := List.flatMap_assoc

theorem replace_singleton {c d : Char} (h : d ≠ c) (w : List Char) : replace c w [d] = [d] := by
  simp [replace, h]

/-- Escaping character by character replaces the percent signs first of all, so that those of the
escapes stay. -/
theorem escapeMessage_eq_replace (s : String) :
    escapeMessage s = replace '\n' "%0A".toList (replace '\r' "%0D".toList
      (replace '%' "%25".toList s.toList)) := by
  have hsteps : escapeMessageChar = fun d => replace '\n' "%0A".toList (replace '\r' "%0D".toList
      (if d = '%' then "%25".toList else [d])) := by
    funext d
    unfold escapeMessageChar
    split
    · rfl
    · rfl
    · rfl
    · rename_i hpercent hreturn hnewline
      rw [if_neg hpercent, replace_singleton hreturn, replace_singleton hnewline]
  rw [escapeMessage, hsteps, replace.eq_def '%', replace_flatMap, replace_flatMap]

theorem escapeProperty_eq_replace (s : String) :
    escapeProperty s = replace ',' "%2C".toList (replace ':' "%3A".toList (escapeMessage s)) := by
  have hsteps : escapePropertyChar = fun d => replace ',' "%2C".toList (replace ':' "%3A".toList
      (escapeMessageChar d)) := by
    funext d
    unfold escapePropertyChar
    split
    · rfl
    · rfl
    · rename_i hcolon hcomma
      unfold escapeMessageChar
      split
      · rfl
      · rfl
      · rfl
      · rw [replace_singleton hcolon, replace_singleton hcomma]
  rw [escapeProperty, hsteps, escapeMessage, replace_flatMap, replace_flatMap]

theorem isCode_escapeMessageChar (d : Char) : IsCode (escapeMessageChar d) := by
  unfold escapeMessageChar
  split
  · exact .escape (by decide) (by decide)
  · exact .escape (by decide) (by decide)
  · exact .escape (by decide) (by decide)
  · rename_i h _ _
    exact .plain h

theorem isCode_escapePropertyChar (d : Char) : IsCode (escapePropertyChar d) := by
  unfold escapePropertyChar
  split
  · exact .escape (by decide) (by decide)
  · exact .escape (by decide) (by decide)
  · exact isCode_escapeMessageChar d

theorem undoMessage_flatMap {f : Char → List Char} (hf : ∀ d, IsCode (f d)) (s : List Char) :
    undoMessage (s.flatMap f) = s.flatMap fun d => undoMessage (f d) := by
  have hreturn (d : Char) : IsCode (undo '0' 'D' '\r' (f d)) := (hf d).undo (by decide)
  have hnewline (d : Char) : IsCode (undo '0' 'A' '\n' (undo '0' 'D' '\r' (f d))) :=
    (hreturn d).undo (by decide)
  rw [undoMessage, undo_flatMap hf, undo_flatMap hreturn, undo_flatMap hnewline]
  rfl

theorem undoProperty_flatMap {f : Char → List Char} (hf : ∀ d, IsCode (f d)) (s : List Char) :
    undoProperty (s.flatMap f) = s.flatMap fun d => undoProperty (f d) := by
  have hcolon (d : Char) : IsCode (undo '3' 'A' ':' (f d)) := (hf d).undo (by decide)
  have hcomma (d : Char) : IsCode (undo '2' 'C' ',' (undo '3' 'A' ':' (f d))) :=
    (hcolon d).undo (by decide)
  rw [undoProperty, undo_flatMap hf, undo_flatMap hcolon, undoMessage_flatMap hcomma]
  rfl

theorem undoMessage_escapeMessage (s : String) : undoMessage (escapeMessage s) = s.toList := by
  have hchar (d : Char) : undoMessage (escapeMessageChar d) = [d] := by
    unfold escapeMessageChar
    split
    · rfl
    · rfl
    · rfl
    · simp only [undoMessage, undo_singleton]
  rw [escapeMessage, undoMessage_flatMap isCode_escapeMessageChar]
  simp only [hchar]
  exact List.flatMap_singleton' s.toList

theorem undoProperty_escape (s : List Char) :
    undoProperty (s.flatMap escapePropertyChar) = s := by
  have hchar (d : Char) : undoProperty (escapePropertyChar d) = [d] := by
    unfold escapePropertyChar
    split
    · rfl
    · rfl
    · unfold escapeMessageChar
      split
      · rfl
      · rfl
      · rfl
      · simp only [undoProperty, undoMessage, undo_singleton]
  rw [undoProperty_flatMap isCode_escapePropertyChar]
  simp only [hchar]
  exact List.flatMap_singleton' s

theorem not_mem_escapeMessageChar {c : Char} (hc : c ∈ ['\r', '\n']) (d : Char) :
    c ∉ escapeMessageChar d := by
  simp only [List.mem_cons, List.not_mem_nil, or_false] at hc
  unfold escapeMessageChar
  split <;> rcases hc with rfl | rfl <;> simp_all [eq_comm]

theorem not_mem_escapePropertyChar {c : Char} (hc : c ∈ [':', ',', '\r', '\n']) (d : Char) :
    c ∉ escapePropertyChar d := by
  simp only [List.mem_cons, List.not_mem_nil, or_false] at hc
  unfold escapePropertyChar escapeMessageChar
  split
  · rcases hc with rfl | rfl | rfl | rfl <;> simp
  · rcases hc with rfl | rfl | rfl | rfl <;> simp
  · split <;> rcases hc with rfl | rfl | rfl | rfl <;> simp_all [eq_comm]

/-! ### Reading a command -/

/-- What a command says. -/
structure Command where
  severity : Severity
  file : String
  line : UInt32
  column : UInt32
  title : String
  message : String
  deriving DecidableEq

/-- What the command of a diagnostic is to say. -/
def Command.ofDiagnostic (d : Diagnostic) : Command :=
  ⟨d.severity, d.file, d.line, d.column, shownTitle d, d.message⟩

/-- The text before the first pair of colons and the text after it. -/
def cutColons? : List Char → Option (List Char × List Char)
  | ':' :: ':' :: s => some ([], s)
  | c :: s => (cutColons? s).map fun (field, rest) => (c :: field, rest)
  | [] => none

/-- A property with its key, which ends at the first equals sign. -/
def readProperty? (s : List Char) : Option (String × List Char) :=
  (Text.cut? '=' s).map fun (key, value) => (String.ofList key, undoProperty value)

def readCommand? : List Char → Option Command
  | ':' :: ':' :: s => do
    let (label, s) ← Text.cut? ' ' s
    let severity ← Severity.ofLabel? (String.ofList label)
    let (properties, message) ← cutColons? s
    let properties ← (properties.splitOn ',').mapM readProperty?
    let file ← properties.lookup "file"
    let line ← properties.lookup "line"
    let column ← properties.lookup "col"
    let title ← properties.lookup "title"
    return {
      severity
      file := String.ofList file
      line := ← Text.word32? line
      column := ← Text.word32? column
      title := String.ofList title
      message := String.ofList (undoMessage message) }
  | _ => none

/-- The keys and values of the properties in a command. -/
def properties (d : Diagnostic) : List (String × List Char) := [
  ("file", d.file.toList), ("line", decimal d.line.toNat), ("col", decimal d.column.toNat),
  ("title", (shownTitle d).toList)]

def printProperty (p : String × List Char) : List Char :=
  p.1.toList ++ '=' :: p.2.flatMap escapePropertyChar

theorem escape_decimal (n : Nat) : (decimal n).flatMap escapePropertyChar = decimal n := by
  have hdigit : ∀ c ∈ decimal n, escapePropertyChar c = [c] := by
    intro c hc
    have hc := Text.isDigit_of_mem_decimal hc
    unfold escapePropertyChar
    split
    · exact absurd hc (by decide)
    · exact absurd hc (by decide)
    · unfold escapeMessageChar
      split
      · exact absurd hc (by decide)
      · exact absurd hc (by decide)
      · exact absurd hc (by decide)
      · rfl
  rw [List.flatMap_def, List.map_congr_left hdigit, ← List.flatMap_def]
  exact List.flatMap_singleton' (decimal n)

/-- A command, part by part. -/
theorem toList_render (d : Diagnostic) :
    (render d).toList = ':' :: ':' :: (d.severity.label.toList ++ ' ' ::
      ([','].intercalate ((properties d).map printProperty) ++ ':' :: ':' ::
        escapeMessage d.message)) := by
  have hproperties : [','].intercalate ((properties d).map printProperty) =
      "file=".toList ++ (escapeProperty d.file ++ (",line=".toList ++ (decimal d.line.toNat ++
        (",col=".toList ++ (decimal d.column.toNat ++
          (",title=".toList ++ escapeProperty (shownTitle d))))))) := by
    simp only [properties, printProperty, List.map_cons, List.map_nil,
      List.intercalate_cons_cons, List.intercalate_singleton, escape_decimal, escapeProperty,
      String.reduceToList, List.append_assoc, List.cons_append, List.nil_append]
  rw [hproperties]
  delta render
  simp only [String.toList_ofList, String.reduceToList, List.append_assoc, List.cons_append,
    List.nil_append]

theorem cutColons?_append {a : List Char} (h : ':' ∉ a) (s : List Char) :
    cutColons? (a ++ ':' :: ':' :: s) = some (a, s) := by
  induction a with
  | nil => rfl
  | cons c a ih =>
    have hc : c ≠ ':' := fun e => h (e ▸ List.mem_cons_self)
    have ha := ih fun hm => h (List.mem_cons_of_mem c hm)
    rw [List.cons_append, cutColons?, ha]
    · rfl
    · rintro t rfl
      exact absurd rfl hc

theorem readProperty?_printProperty {p : String × List Char} (h : '=' ∉ p.1.toList) :
    readProperty? (printProperty p) = some p := by
  rw [readProperty?, printProperty, Text.cut?_append h, Option.map_some]
  dsimp only
  rw [undoProperty_escape, String.ofList_toList]

theorem not_mem_key {d : Diagnostic} {p : String × List Char} (hp : p ∈ properties d) {c : Char}
    (hc : c ∈ ['=', ':', ',', '\r', '\n']) : c ∉ p.1.toList := by
  simp only [properties, List.mem_cons, List.not_mem_nil, or_false] at hp hc
  rcases hp with rfl | rfl | rfl | rfl <;> rcases hc with rfl | rfl | rfl | rfl | rfl <;> simp

/-- The delimiters around a property, and line ends, do not occur in it. -/
theorem not_mem_printProperty {d : Diagnostic} {p : String × List Char} (hp : p ∈ properties d)
    {c : Char} (hc : c ∈ [':', ',', '\r', '\n']) : c ∉ printProperty p := by
  have hkey := not_mem_key hp (List.mem_cons_of_mem '=' hc)
  have hequals : c ≠ '=' := by
    rintro rfl
    exact absurd hc (by decide)
  have hvalue : c ∉ p.2.flatMap escapePropertyChar := by
    intro h
    obtain ⟨d, -, hd⟩ := List.mem_flatMap.1 h
    exact not_mem_escapePropertyChar hc d hd
  simp only [printProperty, List.mem_append, List.mem_cons, not_or]
  exact ⟨hkey, hequals, hvalue⟩

theorem not_mem_properties (d : Diagnostic) {c : Char} (hc : c ∈ [':', '\r', '\n']) :
    c ∉ [','].intercalate ((properties d).map printProperty) := by
  apply Text.not_mem_intercalate
  · rintro rfl
    exact absurd hc (by decide)
  · intro l hl
    obtain ⟨p, hp, rfl⟩ := List.mem_map.1 hl
    have hsub : [':', '\r', '\n'] ⊆ [':', ',', '\r', '\n'] := by simp
    exact not_mem_printProperty hp (hsub hc)

theorem readProperties_print (d : Diagnostic) :
    (([','].intercalate ((properties d).map printProperty)).splitOn ',').mapM readProperty? =
      some (properties d) := by
  have hcomma : ∀ l ∈ (properties d).map printProperty, ',' ∉ l := by
    intro l hl
    obtain ⟨p, hp, rfl⟩ := List.mem_map.1 hl
    exact not_mem_printProperty hp (by decide)
  have hread : ∀ p ∈ properties d, readProperty? (printProperty p) = some p := by
    intro p hp
    refine readProperty?_printProperty fun h => ?_
    exact not_mem_key hp List.mem_cons_self h
  rw [List.splitOn_intercalate ',' hcomma (by simp [properties])]
  simp only [properties, List.forall_mem_cons] at hread
  simp [properties, hread]

/-- A command says what its diagnostic says. -/
theorem readCommand?_render (d : Diagnostic) :
    readCommand? (render d).toList = some (.ofDiagnostic d) := by
  have hlabel : ' ' ∉ d.severity.label.toList := by cases d.severity <;> decide
  have hcolon := not_mem_properties d (c := ':') (by decide)
  rw [toList_render, readCommand?]
  simp only [Text.cut?_append hlabel, cutColons?_append hcolon, readProperties_print,
    Option.bind_eq_bind, Option.bind_some, String.ofList_toList, Severity.ofLabel?_label,
    undoMessage_escapeMessage]
  simp [properties, List.lookup_cons, Command.ofDiagnostic]

theorem not_mem_render (d : Diagnostic) {c : Char} (hc : c ∈ ['\r', '\n']) :
    c ∉ (render d).toList := by
  have hdelimiters : c ≠ ':' ∧ c ≠ ' ' := by
    simp only [List.mem_cons, List.not_mem_nil, or_false] at hc
    rcases hc with rfl | rfl <;> decide
  have hlabel : c ∉ d.severity.label.toList := by
    simp only [List.mem_cons, List.not_mem_nil, or_false] at hc
    rcases hc with rfl | rfl <;> cases d.severity <;> decide
  have hproperties := not_mem_properties d (List.mem_cons_of_mem ':' hc)
  have hmessage : c ∉ escapeMessage d.message := by
    intro h
    obtain ⟨d, -, hd⟩ := List.mem_flatMap.1 h
    exact not_mem_escapeMessageChar hc d hd
  rw [toList_render]
  simp only [List.mem_cons, List.mem_append, not_or]
  exact ⟨hdelimiters.1, hdelimiters.1, hlabel, hdelimiters.2, hproperties, hdelimiters.1,
    hdelimiters.1, hmessage⟩

/-! ### A whole report -/

theorem toList_report (color : Bool) (ds : List Diagnostic) :
    (Format.render color ds .github).toList = unlines (ds.map fun d => (render d).toList) := by
  simp [Format.render, unlines, List.flatMap_map]

/-- A report holds one line for each diagnostic, whatever is in its texts, and each line is read
back as the diagnostic that it reports. -/
theorem report_unambiguous (color : Bool) (ds : List Diagnostic) :
    (Format.render color ds .github).toList.splitOn '\n' =
        ds.map (fun d => (render d).toList) ++ [[]] ∧
      Text.lines (Format.render color ds .github).toList = ds.map (fun d => (render d).toList) ∧
      ∀ d ∈ ds, '\r' ∉ (render d).toList ∧ '\n' ∉ (render d).toList ∧
        readCommand? (render d).toList = some (.ofDiagnostic d) := by
  have hnewline : ∀ l ∈ ds.map (fun d => (render d).toList), '\n' ∉ l := by
    intro l hl
    obtain ⟨d, -, rfl⟩ := List.mem_map.1 hl
    exact not_mem_render d (by decide)
  have hreturn : ∀ l ∈ ds.map (fun d => (render d).toList), '\r' ∉ l := by
    intro l hl
    obtain ⟨d, -, rfl⟩ := List.mem_map.1 hl
    exact not_mem_render d (by decide)
  rw [toList_report]
  refine ⟨Text.splitOn_unlines hnewline, ?_, ?_⟩
  · apply Text.lines_unlines_eq_self
    intro l hl
    exact ⟨hnewline l hl, fun h => hreturn l hl (List.mem_of_getLast? h)⟩
  · intro d _
    exact ⟨not_mem_render d (by decide), not_mem_render d (by decide), readCommand?_render d⟩

end LintReport.Diagnostic.WorkflowCommand
