import LintReport.Proofs.Json.Records
import Mathlib.Data.List.Perm.Basic

/-! Diagnostics whose JSON form is rearranged. The decoder asks an object for the values under its
seven names, one under each, and for nothing else; so the order of the members does not count, nor
do members under other names, and an object without one of the seven is no diagnostic. With what
the writers print this is read from texts. -/

namespace LintReport

open Json

namespace Diagnostic

/-! ### Members by name -/

/-- The names of the fields. -/
def fieldNames : List String := ["severity", "file", "line", "column", "source", "title", "message"]

/-- The name that the key of a member spells. -/
def memberName? (member : List Char × Json) : Option String := (Json.string member.1).text?

/-- A member whose name is that of no field. -/
def IsForeign (member : List Char × Json) : Prop :=
  ∃ name, memberName? member = some name ∧ name ∉ fieldNames

/-- The values of the members with this name. -/
def valuesOf (members : List (List Char × Json)) (name : String) : List Json :=
  (members.filter fun member => memberName? member = some name).map (·.2)

/-- The only item of a list. -/
def only? {α : Type} : List α → Option α
  | [a] => some a
  | _ => none

theorem only?_eq_some_iff {α : Type} {l : List α} {a : α} : only? l = some a ↔ l = [a] := by
  unfold only?
  split <;> simp_all

theorem only?_of_perm {α : Type} {l l' : List α} (h : l.Perm l') : only? l = only? l' := by
  refine Option.ext fun a => ?_
  rw [only?_eq_some_iff, only?_eq_some_iff]
  constructor
  · rintro rfl
    exact List.perm_singleton.1 h.symm
  · rintro rfl
    exact List.perm_singleton.1 h

theorem valuesOf_cons (member : List Char × Json) (members : List (List Char × Json))
    (name : String) : valuesOf (member :: members) name =
      if memberName? member = some name then member.2 :: valuesOf members name
      else valuesOf members name := by
  simp only [valuesOf, List.filter_cons, decide_eq_true_eq]
  split <;> rfl

theorem valuesOf_append (members extra : List (List Char × Json)) (name : String) :
    valuesOf (members ++ extra) name = valuesOf members name ++ valuesOf extra name := by
  rw [valuesOf, List.filter_append, List.map_append, valuesOf, valuesOf]

theorem perm_valuesOf {members members' : List (List Char × Json)} (h : members'.Perm members)
    (name : String) : (valuesOf members' name).Perm (valuesOf members name) :=
  (h.filter _).map _

theorem valuesOf_eq_nil_iff {members : List (List Char × Json)} {name : String} :
    valuesOf members name = [] ↔ ∀ member ∈ members, memberName? member ≠ some name := by
  simp [valuesOf]

theorem valuesOf_of_foreign {extra : List (List Char × Json)}
    (hextra : ∀ member ∈ extra, IsForeign member) {name : String} (hname : name ∈ fieldNames) :
    valuesOf extra name = [] := by
  refine valuesOf_eq_nil_iff.2 fun member hmember heq => ?_
  obtain ⟨other, hother, hforeign⟩ := hextra member hmember
  rw [heq, Option.some.injEq] at hother
  exact hforeign (hother ▸ hname)

/-! ### The decoder -/

theorem namedMembers?_cons (member : List Char × Json) (members : List (List Char × Json)) :
    namedMembers? (member :: members) = (memberName? member).bind fun name =>
      (namedMembers? members).map ((name, member.2) :: ·) := by
  obtain ⟨key, value⟩ := member
  rw [namedMembers?, List.mapM_cons, namedMembers?, memberName?]
  cases h : (Json.string key).text? with
  | none =>
    simp only [h]
    rfl
  | some name =>
    simp only [h]
    exact Option.map_eq_bind.symm

theorem namedMembers?_eq_none_iff {members : List (List Char × Json)} :
    namedMembers? members = none ↔ ∃ member ∈ members, memberName? member = none := by
  induction members with
  | nil => simp [namedMembers?]
  | cons member members ih =>
    simp only [List.mem_cons, exists_eq_or_imp, ← ih, namedMembers?_cons]
    cases memberName? member <;> simp

theorem valuesOf_eq {members : List (List Char × Json)} {named : List (String × Json)}
    (h : namedMembers? members = some named) (name : String) :
    valuesOf members name = (named.filter (·.1 = name)).map (·.2) := by
  induction members generalizing named with
  | nil =>
    cases h
    rfl
  | cons member members ih =>
    rw [namedMembers?_cons, Option.bind_eq_some_iff] at h
    obtain ⟨first, hfirst, h⟩ := h
    obtain ⟨rest, hrest, rfl⟩ := Option.map_eq_some_iff.1 h
    rw [valuesOf_cons, ih hrest, hfirst, List.filter_cons]
    by_cases hname : first = name <;> simp [hname]

/-- The decoder looks a field up among the values under its name. -/
theorem field?_eq {members : List (List Char × Json)} {named : List (String × Json)}
    (h : namedMembers? members = some named) (name : String) :
    field? named name = only? (valuesOf members name) := by
  rw [valuesOf_eq h, field?]
  generalize named.filter (·.1 = name) = found
  rcases found with _ | ⟨⟨_, value⟩, _ | ⟨second, more⟩⟩ <;> rfl

/-- The diagnostic whose fields are these. -/
def ofValues? (values : String → List Json) : Option Diagnostic := do
  ofFields? (← only? (values "severity")) (← only? (values "file")) (← only? (values "line"))
    (← only? (values "column")) (← only? (values "source")) (← only? (values "title"))
    (← only? (values "message"))

theorem ofValues?_congr {values values' : String → List Json}
    (h : ∀ name ∈ fieldNames, only? (values name) = only? (values' name)) :
    ofValues? values = ofValues? values' := by
  simp only [fieldNames, List.forall_mem_cons] at h
  obtain ⟨hseverity, hfile, hline, hcolumn, hsource, htitle, hmessage, -⟩ := h
  rw [ofValues?, hseverity, hfile, hline, hcolumn, hsource, htitle, hmessage, ofValues?]

/-- All of the seven are needed. -/
theorem exists_of_ofValues? {values : String → List Json} {d : Diagnostic}
    (h : ofValues? values = some d) : ∀ name ∈ fieldNames, ∃ value, values name = [value] := by
  simp only [ofValues?, Option.bind_eq_bind, Option.bind_eq_some_iff, only?_eq_some_iff] at h
  obtain ⟨severity, hseverity, file, hfile, line, hline, column, hcolumn, source, hsource, title,
    htitle, message, hmessage, -⟩ := h
  simp only [fieldNames, List.forall_mem_cons]
  exact ⟨⟨_, hseverity⟩, ⟨_, hfile⟩, ⟨_, hline⟩, ⟨_, hcolumn⟩, ⟨_, hsource⟩, ⟨_, htitle⟩,
    ⟨_, hmessage⟩, List.forall_mem_nil _⟩

theorem ofJson?_of_named {members : List (List Char × Json)} {named : List (String × Json)}
    (h : namedMembers? members = some named) :
    ofJson? (.object members) = ofValues? (valuesOf members) := by
  simp only [ofJson?, h, Option.bind_eq_bind, Option.bind_some, field?_eq h, ofValues?]

theorem ofJson?_of_not_named {members : List (List Char × Json)}
    (h : namedMembers? members = none) : ofJson? (.object members) = none := by
  rw [ofJson?, h]
  rfl

/-- Neither the order of the members counts nor what is under other names. -/
theorem ofJson?_rearranged {members members' extra : List (List Char × Json)}
    (hperm : members'.Perm (members ++ extra)) (hextra : ∀ member ∈ extra, IsForeign member) :
    ofJson? (.object members') = ofJson? (.object members) := by
  cases h : namedMembers? members with
  | none =>
    obtain ⟨member, hmember, hname⟩ := namedMembers?_eq_none_iff.1 h
    have hmember' := hperm.mem_iff.2 (List.mem_append_left extra hmember)
    have h' := namedMembers?_eq_none_iff.2 ⟨member, hmember', hname⟩
    rw [ofJson?_of_not_named h, ofJson?_of_not_named h']
  | some named =>
    have hnamed : namedMembers? members' ≠ none := by
      intro h'
      obtain ⟨member, hmember, hname⟩ := namedMembers?_eq_none_iff.1 h'
      rcases List.mem_append.1 (hperm.mem_iff.1 hmember) with hmember | hmember
      · rw [namedMembers?_eq_none_iff.2 ⟨member, hmember, hname⟩] at h
        cases h
      · obtain ⟨name, hsome, -⟩ := hextra member hmember
        rw [hsome] at hname
        cases hname
    obtain ⟨named', h'⟩ := Option.ne_none_iff_exists'.1 hnamed
    rw [ofJson?_of_named h, ofJson?_of_named h']
    refine ofValues?_congr fun name hname => ?_
    have hvalues := perm_valuesOf hperm name
    rw [valuesOf_append, valuesOf_of_foreign hextra hname, List.append_nil] at hvalues
    exact only?_of_perm hvalues

theorem ofJson?_of_omitted {members : List (List Char × Json)} {name : String}
    (hname : name ∈ fieldNames) (homitted : ∀ member ∈ members, memberName? member ≠ some name) :
    ofJson? (.object members) = none := by
  cases h : namedMembers? members with
  | none => exact ofJson?_of_not_named h
  | some named =>
    rw [ofJson?_of_named h, Option.eq_none_iff_forall_ne_some]
    intro d hd
    obtain ⟨value, hvalue⟩ := exists_of_ofValues? hd name hname
    rw [valuesOf_eq_nil_iff.2 homitted] at hvalue
    cases hvalue

/-! ### Texts -/

/-- The members of the object that is written. -/
def members (d : Diagnostic) : List (List Char × Json) := [
  ("severity".toList, .ofString d.severity.label),
  ("file".toList, .ofString d.file),
  ("line".toList, .ofNat d.line.toNat),
  ("column".toList, .ofNat d.column.toNat),
  ("source".toList, .ofString d.source),
  ("title".toList, .ofString d.title),
  ("message".toList, .ofString d.message)]

theorem toJson_eq (d : Diagnostic) : d.toJson = .object d.members := rfl

theorem ofText?_of_parse? {s : String} {v : Json} (h : parse? s.toList = some v) :
    ofText? s = ofJson? v := by
  rw [ofText?, h]
  rfl

theorem ofText?_toText (d : Diagnostic) : ofText? d.toText = some d := by
  have hparse : parse? d.toText.toList = some d.toJson := by
    rw [toText, String.toList_ofList, parse?_compact d.canonical_toJson]
  rw [ofText?_of_parse? hparse, ofJson?_toJson]

/-- What is written for a diagnostic or a list of them is read back. Texts of objects with the same
members, in any order and with any others under foreign names among them, are read alike, so each
text of a diagnostic's members arranged in this way gives the diagnostic; and a text of an object
without one of the seven fields gives none. -/
theorem json_loses_nothing :
    (∀ d : Diagnostic, ofText? d.toText = some d) ∧
    (∀ ds : List Diagnostic, listOfText? (listToText ds) = some ds) ∧
    (∀ (s s' : String) (members members' extra : List (List Char × Json)),
      parse? s.toList = some (.object members) → parse? s'.toList = some (.object members') →
      members'.Perm (members ++ extra) → (∀ member ∈ extra, IsForeign member) →
      ofText? s' = ofText? s) ∧
    (∀ (d : Diagnostic) (s : String) (members' extra : List (List Char × Json)),
      Spells (.object members') s.toList → members'.Perm (d.members ++ extra) →
      (∀ member ∈ extra, IsForeign member) → ofText? s = some d) ∧
    (∀ (s : String) (members : List (List Char × Json)) (name : String),
      parse? s.toList = some (.object members) → name ∈ fieldNames →
      (∀ member ∈ members, memberName? member ≠ some name) → ofText? s = none) := by
  refine ⟨ofText?_toText, listOfText?_listToText, ?_, ?_, ?_⟩
  · intro s s' members members' extra hs hs' hperm hextra
    rw [ofText?_of_parse? hs, ofText?_of_parse? hs', ofJson?_rearranged hperm hextra]
  · intro d s members' extra hs hperm hextra
    rw [ofText?_of_parse? (parse?_of_spells hs), ofJson?_rearranged hperm hextra, ← toJson_eq,
      ofJson?_toJson]
  · intro s members name hs hname homitted
    rw [ofText?_of_parse? hs, ofJson?_of_omitted hname homitted]

/-- A diagnostic with quotes, a backslash, a control character and a character outside the basic
plane in it, at the last position. -/
def escaped : Diagnostic where
  severity := .warning
  file := "\\\"a\".py"
  line := 4294967295
  column := 4294967295
  source := "flake8"
  title := ""
  message := "\x01\n😀"

/-- Its members, last first, and among them one that no field asks for. -/
def reordered : List (List Char × Json) :=
  ("url".toList, .array [.null, .object [("line".toList, .ofNat 1)]]) :: escaped.members.reverse

theorem canonical_reordered : Canonical (.object reordered) := by
  cases escaped.canonical_toJson with
  | object hkeys hvalues =>
    have hobject : Canonical (.object [("line".toList, .ofNat 1)]) :=
      .object (List.forall_mem_singleton.2 ⟨"line".toList, rfl⟩)
        (List.forall_mem_singleton.2 (.number 1))
    have hurl : Canonical (.array [.null, .object [("line".toList, .ofNat 1)]]) :=
      .array (List.forall_mem_cons.2 ⟨.null, List.forall_mem_singleton.2 hobject⟩)
    refine .object (List.forall_mem_cons.2 ⟨⟨"url".toList, rfl⟩, ?_⟩)
      (List.forall_mem_cons.2 ⟨hurl, ?_⟩)
    · exact fun m hm => hkeys m (List.mem_reverse.1 hm)
    · exact fun m hm => hvalues m (List.mem_reverse.1 hm)

theorem json_loses_nothing_reordered :
    ofText? (String.ofList (Json.object reordered).compact) = some escaped ∧
      ofText? (String.ofList (Json.object reordered.dropLast).compact) = none := by
  have hforeign : IsForeign ("url".toList, .array [.null, .object [("line".toList, .ofNat 1)]]) :=
    ⟨"url", by decide, by decide⟩
  have hperm : reordered.Perm (escaped.members ++ reordered.take 1) :=
    (escaped.members.reverse_perm.cons _).trans (List.perm_append_singleton _ _).symm
  constructor
  · refine json_loses_nothing.2.2.2.1 escaped _ reordered (reordered.take 1) ?_ hperm
      (List.forall_mem_singleton.2 hforeign)
    rw [String.toList_ofList]
    exact canonical_reordered.spells_compact
  · have hcanonical := canonical_reordered.object_of_subset (List.dropLast_subset reordered)
    refine json_loses_nothing.2.2.2.2 _ reordered.dropLast "severity" ?_ (by decide) ?_
    · rw [String.toList_ofList, parse?_compact hcanonical]
    · decide +kernel

end Diagnostic

end LintReport
