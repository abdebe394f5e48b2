import LintReport.Proofs.Validation
import Mathlib.Data.List.Perm.Basic

/-! Settings that a document leaves out. A table says of each of its settings what the value is, or
says nothing if that is the default; in which order it says so, and whether under a header or
between braces, makes no difference. What is read from such a table is the configuration that it was
written for, whatever is left out. A key that is no setting is refused at each level. -/

namespace LintReport

open Toml (Value Entries)

namespace Config

/-! ### Tables and their settings -/

/-- A table of some settings. -/
structure IsSection (names : List String) (entries : Entries) : Prop where
  distinct : (entries.map (·.1)).Nodup
  known : ∀ entry ∈ entries, entry.1 ∈ names

/-- What a table says of a setting: it gives a value that stands for the setting, or it leaves the
setting out because that has its default. -/
inductive Says (entries : Entries) (name : String) (IsValue : Value → Prop) (isDefault : Prop) :
    Prop
  | given {value : Value} (h : (name, value) ∈ entries) (hvalue : IsValue value)
  | omitted (h : name ∉ entries.map (·.1)) (hdefault : isDefault)

/-- A value that stands for what an optional setting has. -/
def IsSome {α : Type} (write : α → Value) (a : Option α) (value : Value) : Prop :=
  ∃ b, a = some b ∧ value = write b

/-- A table, however it came about, whose entries are of some kind. -/
inductive IsTable (AreEntries : Entries → Prop) : Value → Prop
  | intro (origin : Toml.Origin) {entries : Entries} (h : AreEntries entries) :
      IsTable AreEntries (.table origin entries)

/-- The entries of a map, in any order, each with a value that stands for it. -/
def IsDict {α : Type} (IsValue : α → Value → Prop) (d : Dict α) (entries : Entries) : Prop :=
  ∃ inOrder, entries.Perm inOrder ∧
    List.Forall₂ (fun entry e => entry.1 = e.1 ∧ IsValue e.2 entry.2) inOrder d.entries

/-- The settings of a document, of its section `lint` and of the section of a tool. -/
abbrev documentKeys : List String := ["lint", "tools"]

abbrev lintKeys : List String := ["tools", "paths", "tests", "trailing_hunk"]

abbrev toolKeys : List String := ["program", "args", "env"]

/-- A list of texts as a value. -/
def texts (l : List String) : Value := .array (l.map .string)

/-- The name of a choice. -/
def trailingName : Diff.Trailing → String
  | .discard => "discard"
  | .flush => "flush"

end Config

open Config

/-- The entries of a section `lint` with these settings. -/
structure LintSettings.WrittenAs (s : LintSettings) (entries : Entries) : Prop where
  keys : IsSection lintKeys entries
  tools : Says entries "tools" (IsSome texts s.tools) (s.tools = none)
  paths : Says entries "paths" (· = texts s.paths) (s.paths = [])
  tests : Says entries "tests" (· = .boolean s.tests) (s.tests = true)
  trailing : Says entries "trailing_hunk" (· = .string (trailingName s.trailing))
    (s.trailing = .discard)

/-- The entries of a section of a tool with these settings. -/
structure ToolSettings.WrittenAs (s : ToolSettings) (entries : Entries) : Prop where
  keys : IsSection toolKeys entries
  program : Says entries "program" (IsSome .string s.program) (s.program = none)
  args : Says entries "args" (IsSome texts s.args) (s.args = none)
  env : Says entries "env" (IsTable (IsDict (fun text value => value = .string text) s.env))
    (s.env = .empty)

namespace Config

/-- The entries of a document with this configuration. -/
structure WrittenAs (c : Config) (document : Entries) : Prop where
  keys : IsSection documentKeys document
  lint : Says document "lint" (IsTable c.lint.WrittenAs) (c.lint = {})
  tools : Says document "tools" (IsTable (IsDict (fun s => IsTable s.WrittenAs) c.tools))
    (c.tools = .empty)

/-! ### Reading what is written -/

section Reading

variable {α : Type} {entries : Entries} {names : List String} {name : String}

theorem lookup_of_mem {value : Value} (hdistinct : (entries.map (·.1)).Nodup)
    (h : (name, value) ∈ entries) : entries.lookup name = some value := by
  obtain ⟨before, behind, rfl⟩ := List.append_of_mem h
  rw [List.map_append, List.map_cons, List.nodup_middle, List.nodup_cons] at hdistinct
  have hbefore : ∀ entry ∈ before, (name != entry.1) = true := by
    intro entry hentry
    refine bne_iff_ne.2 fun heq => hdistinct.1 (List.mem_append_left _ ?_)
    exact List.mem_map.2 ⟨entry, hentry, heq.symm⟩
  exact List.lookup_eq_some_iff.2 ⟨before, behind, rfl, hbefore⟩

theorem lookup_of_not_mem (h : name ∉ entries.map (·.1)) : entries.lookup name = none := by
  refine List.lookup_eq_none_iff.2 fun entry hentry => bne_iff_ne.2 ?_
  rintro rfl
  exact h (List.mem_map_of_mem hentry)

theorem IsSection.section?_eq (h : IsSection names entries) (origin : Toml.Origin) :
    Config.section? names (.table origin entries) = some entries := by
  rw [section?, if_pos]
  rw [List.all_eq_true]
  exact fun entry hentry => decide_eq_true (h.known entry hentry)

/-- A setting is read as it was, from its value or as its default. -/
theorem IsSection.setting?_eq (hkeys : IsSection names entries) {IsValue : Value → Prop}
    {read? : Value → Option α} {a standard : α} (h : Says entries name IsValue (a = standard))
    (hread : ∀ value, IsValue value → read? value = some a) :
    setting? entries name read? standard = some a := by
  cases h with
  | given hmem hvalue =>
    rw [setting?, lookup_of_mem hkeys.distinct hmem]
    exact hread _ hvalue
  | omitted hmem hdefault => rw [setting?, lookup_of_not_mem hmem, hdefault]

theorem mapM_of_forall₂ {β : Type} {f : α → Option β} {l : List α} {m : List β}
    (h : List.Forall₂ (fun a b => f a = some b) l m) : l.mapM f = some m := by
  induction h with
  | nil => rfl
  | cons hab _ ih => simp [hab, ih]

theorem strings?_texts (l : List String) : strings? (texts l) = some l := by
  have hitems : List.Forall₂ (fun value text => string? value = some text) (l.map .string) l := by
    rw [List.forall₂_map_left_iff, List.forall₂_same]
    exact fun text _ => rfl
  exact mapM_of_forall₂ hitems

/-- What is read as some value is read as the value that the setting has. -/
theorem map_some_of_isSome {write : α → Value} {read? : Value → Option α} {a : Option α}
    {value : Value} (h : IsSome write a value) (hread : ∀ b, read? (write b) = some b) :
    (read? value).map some = some a := by
  obtain ⟨b, rfl, rfl⟩ := h
  rw [hread, Option.map_some]

theorem trailing?_string (t : Diff.Trailing) : trailing? (.string (trailingName t)) = some t := by
  cases t <;> rfl

/-- A map is read as it was, in whatever order its entries are written. -/
theorem dict?_of_isTable {IsValue : α → Value → Prop} {read? : Value → Option α} {d : Dict α}
    {value : Value} (h : IsTable (IsDict IsValue d) value)
    (hread : ∀ a value, IsValue a value → read? value = some a) : dict? read? value = some d := by
  obtain ⟨origin, inOrder, hperm, hentries⟩ := h
  obtain ⟨found, hfound, hd⟩ := List.perm_comp_forall₂ hperm hentries
  rw [dict?, entries?, Option.bind_eq_bind, Option.bind_some, mapM_of_forall₂ (m := found),
    Option.bind_eq_bind, Option.bind_some, Dict.ofList_of_perm hd]
  · rfl
  · refine hfound.imp fun entry e h => ?_
    obtain ⟨key, value⟩ := entry
    obtain ⟨rfl, hvalue⟩ := h
    simp [hread _ _ hvalue]

end Reading

theorem lintSettings?_of_isTable {s : LintSettings} {value : Value}
    (h : IsTable s.WrittenAs value) : lintSettings? value = some s := by
  obtain ⟨origin, h⟩ := h
  have htools := h.keys.setting?_eq h.tools fun _ hvalue => map_some_of_isSome hvalue strings?_texts
  have hpaths := h.keys.setting?_eq h.paths fun _ hvalue => hvalue ▸ strings?_texts s.paths
  have htests := h.keys.setting?_eq h.tests fun _ hvalue => hvalue ▸ boolean?.eq_1 s.tests
  have htrailing := h.keys.setting?_eq h.trailing fun _ hvalue =>
    hvalue ▸ trailing?_string s.trailing
  rw [lintSettings?, h.keys.section?_eq]
  simp only [Option.bind_eq_bind, Option.bind_some, htools, hpaths, htests, htrailing]
  rfl

theorem toolSettings?_of_isTable {s : ToolSettings} {value : Value}
    (h : IsTable s.WrittenAs value) : toolSettings? value = some s := by
  obtain ⟨origin, h⟩ := h
  have hprogram := h.keys.setting?_eq h.program fun _ hvalue =>
    map_some_of_isSome hvalue string?.eq_1
  have hargs := h.keys.setting?_eq h.args fun _ hvalue => map_some_of_isSome hvalue strings?_texts
  have henv := h.keys.setting?_eq h.env fun _ hvalue =>
    dict?_of_isTable hvalue fun text _ htext => htext ▸ string?.eq_1 text
  rw [toolSettings?, h.keys.section?_eq]
  simp only [Option.bind_eq_bind, Option.bind_some, hprogram, hargs, henv]
  rfl

theorem ofEntries?_of_writtenAs {c : Config} {document : Entries} (h : c.WrittenAs document) :
    ofEntries? document = some c := by
  have hlint := h.keys.setting?_eq h.lint fun _ => lintSettings?_of_isTable
  have htools := h.keys.setting?_eq h.tools fun _ hvalue =>
    dict?_of_isTable hvalue fun _ _ => toolSettings?_of_isTable
  rw [ofEntries?, h.keys.section?_eq]
  simp only [Option.bind_eq_bind, Option.bind_some, hlint, htools]
  rfl

/-! ### Keys that are no settings -/

/-- A key that is no setting, in the document itself, in its section `lint` or in that of a tool. -/
inductive HasUnknownKey (document : Entries) : Prop
  | inDocument {entry : String × Value} (h : entry ∈ document) (hkey : entry.1 ∉ documentKeys)
  | inLint {origin : Toml.Origin} {entries : Entries} {entry : String × Value}
      (hlint : document.lookup "lint" = some (.table origin entries)) (h : entry ∈ entries)
      (hkey : entry.1 ∉ lintKeys)
  | inTool {origin origin' : Toml.Origin} {sections entries : Entries} {tool : String}
      {entry : String × Value} (htools : document.lookup "tools" = some (.table origin sections))
      (htool : (tool, .table origin' entries) ∈ sections) (h : entry ∈ entries)
      (hkey : entry.1 ∉ toolKeys)

theorem section?_of_unknown {names : List String} {entries : Entries} {entry : String × Value}
    (origin : Toml.Origin) (h : entry ∈ entries) (hkey : entry.1 ∉ names) :
    Config.section? names (.table origin entries) = none := by
  rw [section?, if_neg]
  intro hall
  exact hkey (of_decide_eq_true (List.all_eq_true.1 hall entry h))

theorem mapM_eq_none_of_mem {α β : Type} {f : α → Option β} {l : List α} {a : α} (h : a ∈ l)
    (ha : f a = none) : l.mapM f = none := by
  induction l with
  | nil => cases h
  | cons b l ih =>
    rw [List.mapM_cons]
    rcases List.mem_cons.1 h with rfl | h
    · rw [ha]
      rfl
    · rw [ih h]
      cases f b <;> rfl

/-- A document is refused if one of its two sections is. -/
theorem ofEntries?_eq_none {document : Entries}
    (h : setting? document "lint" lintSettings? {} = none ∨
      setting? document "tools" (dict? toolSettings?) .empty = none) :
    ofEntries? document = none := by
  rw [ofEntries?, section?]
  split
  · rcases h with h | h
    · simp only [Option.bind_eq_bind, Option.bind_some, h, Option.bind_none]
    · simp only [Option.bind_eq_bind, Option.bind_some, h, Option.bind_none, Option.bind_fun_none]
  · rfl

/-- A key that is no setting is an error, whatever else the document says. -/
theorem ofEntries?_of_hasUnknownKey {document : Entries} (h : HasUnknownKey document) :
    ofEntries? document = none := by
  cases h with
  | inDocument h hkey =>
    rw [ofEntries?, section?_of_unknown _ h hkey]
    rfl
  | @inLint origin entries _ hlint h hkey =>
    have hread : lintSettings? (.table origin entries) = none := by
      rw [lintSettings?, section?_of_unknown _ h hkey]
      rfl
    apply ofEntries?_eq_none
    left
    rw [setting?, hlint]
    exact hread
  | @inTool origin origin' sections entries tool _ htools htool h hkey =>
    have hread : toolSettings? (.table origin' entries) = none := by
      rw [toolSettings?, section?_of_unknown _ h hkey]
      rfl
    have hsections : dict? toolSettings? (.table origin sections) = none := by
      rw [dict?, entries?, Option.bind_eq_bind, Option.bind_some,
        mapM_eq_none_of_mem htool (by simp [hread])]
      rfl
    apply ofEntries?_eq_none
    right
    rw [setting?, htools]
    exact hsections

/-! ### Leaving out what is chosen -/

/-- The entries of the settings that have a value. -/
def given (settings : List (String × Option Value)) : Entries :=
  settings.filterMap fun setting => setting.2.map (setting.1, ·)

/-- The value of a setting, unless the setting has its default and is left out. -/
def unlessOmitted (omitted : Bool) (isDefault : Prop) [Decidable isDefault] (value : Value) :
    Option Value :=
  if omitted ∧ isDefault then none else some value

end Config

section Documents

variable (omits : List String → Bool)

/-- The settings of a section `lint` that leaves some out where they have their defaults. -/
def LintSettings.settings (s : LintSettings) : List (String × Option Value) := [
  ("tools", s.tools.map texts),
  ("paths", unlessOmitted (omits ["lint", "paths"]) (s.paths = []) (texts s.paths)),
  ("tests", unlessOmitted (omits ["lint", "tests"]) (s.tests = true) (.boolean s.tests)),
  ("trailing_hunk", unlessOmitted (omits ["lint", "trailing_hunk"]) (s.trailing = .discard)
    (.string (trailingName s.trailing)))]

/-- The settings of the section of a tool, in the same way. -/
def ToolSettings.settings (tool : String) (s : ToolSettings) : List (String × Option Value) := [
  ("program", s.program.map .string),
  ("args", s.args.map texts),
  ("env", unlessOmitted (omits ["tools", tool, "env"]) (s.env = .empty)
    (.table .inline (s.env.entries.map fun e => (e.1, .string e.2))))]

def Config.settings (c : Config) : List (String × Option Value) := [
  ("lint", unlessOmitted (omits ["lint"]) (c.lint = {})
    (.table .header (given (c.lint.settings omits)))),
  ("tools", unlessOmitted (omits ["tools"]) (c.tools = .empty)
    (.table .implied
      (c.tools.entries.map fun e => (e.1, .table .header (given (e.2.settings omits e.1))))))]

/-- A document for a configuration. The settings and sections to be left out are named by the keys
that lead to them, and are left out where they have their defaults; a setting that has no value is
never there. -/
def Config.document (c : Config) : Entries := given (c.settings omits)

end Documents

namespace Config

section Given

variable {settings : List (String × Option Value)}

theorem map_given_sublist (settings : List (String × Option Value)) :
    ((given settings).map (·.1)).Sublist (settings.map (·.1)) := by
  induction settings with
  | nil => exact .slnil
  | cons setting rest ih =>
    obtain ⟨name, value⟩ := setting
    cases value with
    | none => exact ih.cons name
    | some value => exact ih.cons_cons name

theorem mem_given {entry : String × Value} :
    entry ∈ given settings ↔ (entry.1, some entry.2) ∈ settings := by
  rw [given, List.mem_filterMap]
  constructor
  · rintro ⟨⟨name, value⟩, hmem, hvalue⟩
    obtain ⟨value, rfl, rfl⟩ := Option.map_eq_some_iff.1 hvalue
    exact hmem
  · intro h
    exact ⟨_, h, rfl⟩

variable {name : String} (hdistinct : (settings.map (·.1)).Nodup)
include hdistinct

theorem isSection_given : IsSection (settings.map (·.1)) (given settings) where
  distinct := hdistinct.sublist (map_given_sublist settings)
  known _ hentry := List.mem_map.2 ⟨_, mem_given.1 hentry, rfl⟩

theorem says_given {value : Option Value} (h : (name, value) ∈ settings)
    {IsValue : Value → Prop} {isDefault : Prop} (hvalue : ∀ v, value = some v → IsValue v)
    (hnone : value = none → isDefault) : Says (given settings) name IsValue isDefault := by
  cases value with
  | some v => exact .given (mem_given.2 h) (hvalue v rfl)
  | none =>
    refine .omitted (fun hname => ?_) (hnone rfl)
    obtain ⟨entry, hentry, rfl⟩ := List.mem_map.1 hname
    cases List.inj_on_of_nodup_map hdistinct h (mem_given.1 hentry) rfl

theorem says_optional {α : Type} {a : Option α} {write : α → Value}
    (h : (name, a.map write) ∈ settings) :
    Says (given settings) name (IsSome write a) (a = none) := by
  refine says_given hdistinct h (fun v hv => ?_) Option.map_eq_none_iff.1
  obtain ⟨b, hb, rfl⟩ := Option.map_eq_some_iff.1 hv
  exact ⟨b, hb, rfl⟩

theorem says_unlessOmitted {omitted : Bool} {isDefault : Prop} [Decidable isDefault] {value : Value}
    (h : (name, unlessOmitted omitted isDefault value) ∈ settings) {IsValue : Value → Prop}
    (hvalue : IsValue value) : Says (given settings) name IsValue isDefault := by
  by_cases homitted : omitted ∧ isDefault
  · rw [unlessOmitted, if_pos homitted] at h
    refine says_given hdistinct h (fun v hv => ?_) fun _ => homitted.2
    cases hv
  · rw [unlessOmitted, if_neg homitted] at h
    refine says_given hdistinct h (fun v hv => Option.some.inj hv ▸ hvalue) fun hnone => ?_
    cases hnone

end Given

theorem isDict_map {α : Type} {IsValue : α → Value → Prop} {d : Dict α} {f : String × α → Value}
    (h : ∀ e ∈ d.entries, IsValue e.2 (f e)) :
    IsDict IsValue d (d.entries.map fun e => (e.1, f e)) := by
  refine ⟨_, .refl _, ?_⟩
  rw [List.forall₂_map_left_iff, List.forall₂_same]
  exact fun e he => ⟨rfl, h e he⟩

end Config

section Documents

variable (omits : List String → Bool)

theorem LintSettings.writtenAs_given (s : LintSettings) :
    s.WrittenAs (given (s.settings omits)) := by
  have hdistinct : ((s.settings omits).map (·.1)).Nodup := show lintKeys.Nodup by decide
  exact {
    keys := isSection_given hdistinct
    tools := says_optional hdistinct (.head _)
    paths := says_unlessOmitted hdistinct (.tail _ (.head _)) rfl
    tests := says_unlessOmitted hdistinct (.tail _ (.tail _ (.head _))) rfl
    trailing := says_unlessOmitted hdistinct (.tail _ (.tail _ (.tail _ (.head _)))) rfl }

theorem ToolSettings.writtenAs_given (tool : String) (s : ToolSettings) :
    s.WrittenAs (given (s.settings omits tool)) := by
  have hdistinct : ((s.settings omits tool).map (·.1)).Nodup := show toolKeys.Nodup by decide
  exact {
    keys := isSection_given hdistinct
    program := says_optional hdistinct (.head _)
    args := says_optional hdistinct (.tail _ (.head _))
    env := says_unlessOmitted hdistinct (.tail _ (.tail _ (.head _)))
      (.intro _ (isDict_map fun _ _ => rfl)) }

theorem Config.writtenAs_document (c : Config) : c.WrittenAs (c.document omits) := by
  have hdistinct : ((c.settings omits).map (·.1)).Nodup := show documentKeys.Nodup by decide
  exact {
    keys := isSection_given hdistinct
    lint := says_unlessOmitted hdistinct (.head _)
      (.intro _ (LintSettings.writtenAs_given omits c.lint))
    tools := says_unlessOmitted hdistinct (.tail _ (.head _))
      (.intro _ (isDict_map fun e _ => .intro _ (ToolSettings.writtenAs_given omits e.1 e.2))) }

end Documents

namespace Config

/-! ### Loading -/

/-- A configuration that can be run is loaded as it is from every document that is written for it,
whichever of its defaults the document leaves out; a document with a key that is no setting is
refused, whatever else it says; and a text is loaded as the document that it is. -/
theorem document_keeps_settings (c : Config) (hc : c.Runnable) :
    (∀ document, c.WrittenAs document → ofDocument document = .ok c) ∧
    (∀ omits, c.WrittenAs (c.document omits) ∧ ofDocument (c.document omits) = .ok c) ∧
    (∀ document, HasUnknownKey document → ofDocument document = .error .malformed) ∧
    ∀ text document, Toml.parse? text = some document → ofText text = ofDocument document := by
  have hload : ∀ document, c.WrittenAs document → ofDocument document = .ok c := by
    intro document h
    simp only [ofDocument, ofEntries?_of_writtenAs h]
    exact validate_eq_ok_iff.2 ⟨rfl, hc⟩
  refine ⟨hload, ?_, ?_, ?_⟩
  · intro omits
    exact ⟨writtenAs_document omits c, hload _ (writtenAs_document omits c)⟩
  · intro document h
    simp only [ofDocument, ofEntries?_of_hasUnknownKey h]
  · intro text document h
    simp only [ofText, h]

/-- A configuration in which only the program of one tool is not the default. -/
def mypyAlone : Config where
  tools := ⟨[("mypy", { program := some "m" })], List.pairwise_singleton _ _⟩

/-- A document for it, with the settings in another order and one of the defaults written. -/
def mypyDocument : Entries := [
  ("tools", .table .dotted [("mypy", .table .dotted [("program", .string "m")])]),
  ("lint", .table .dotted [("paths", .array [])])]

theorem writtenAs_mypyDocument : mypyAlone.WrittenAs mypyDocument where
  keys := ⟨by decide, by decide⟩
  lint := .given (.tail _ (.head _)) (.intro _ {
    keys := ⟨by decide, by decide⟩
    tools := .omitted (by decide) rfl
    paths := .given (.head _) rfl
    tests := .omitted (by decide) rfl
    trailing := .omitted (by decide) rfl })
  tools := .given (.head _) (.intro _ ⟨_, .refl _, .cons ⟨rfl, .intro _ {
    keys := ⟨by decide, by decide⟩
    program := .given (.head _) ⟨_, rfl, rfl⟩
    args := .omitted (by decide) rfl
    env := .omitted (by decide) rfl }⟩ .nil⟩)

theorem document_keeps_settings_mypyAlone :
    mypyAlone.Runnable ∧
      ofText "tools.mypy.program = 'm'\nlint.paths = []".toList = .ok mypyAlone ∧
      HasUnknownKey (("test", .boolean false) :: mypyDocument) ∧
      ofDocument (("test", .boolean false) :: mypyDocument) = .error .malformed := by
  have hrunnable : mypyAlone.Runnable := runnable_iff.2 ⟨by decide, by decide⟩
  obtain ⟨hload, -, hunknown, htext⟩ := document_keeps_settings mypyAlone hrunnable
  have hparse : Toml.parse? "tools.mypy.program = 'm'\nlint.paths = []".toList =
      some mypyDocument := by rfl
  have hkey : HasUnknownKey (("test", .boolean false) :: mypyDocument) :=
    .inDocument List.mem_cons_self (by decide)
  exact ⟨hrunnable, (htext _ _ hparse).trans (hload _ writtenAs_mypyDocument), hkey,
    hunknown _ hkey⟩

end Config

end LintReport
