import LintReport.Config.Reader
import LintReport.Proofs.Dict
import LintReport.Proofs.Selection

/-! Which configurations are accepted, and what is said of the others. A configuration is accepted, as
it is, if all tools that it names are known and no program in it is blank. Of several faults one is
reported: unknown names come before blank programs and listed names before those of sections, the
listed ones in their order, sections in the order of their names. -/

namespace LintReport

/-- A program that is given but is empty, or white space only. -/
def ToolSettings.HasBlankProgram (s : ToolSettings) : Prop :=
  ∃ program, s.program = some program ∧ ∀ c ∈ program.toList, Text.isBlank c = true

theorem ToolSettings.hasBlankProgram_iff {s : ToolSettings} :
    (s.program.any fun program => (Text.trim program.toList).isEmpty) = true ↔
      s.HasBlankProgram := by
  simp only [Option.any_eq_true, List.isEmpty_iff, Text.trim_eq_nil_iff, HasBlankProgram]

namespace Config

/-- The tools that a configuration lists. -/
def listed (c : Config) : List String := c.lint.tools.getD []

structure Runnable (c : Config) : Prop where
  listed_known : ∀ name ∈ c.listed, name ∈ knownTools
  sections_known : ∀ key ∈ c.tools.keys, key ∈ knownTools
  programs : ∀ entry ∈ c.tools.entries, ¬entry.2.HasBlankProgram

/-- The fault that is reported of a configuration. -/
inductive FirstFault (c : Config) : ConfigError → Prop
  /-- The first unknown name of the list. -/
  | listedName {before behind : List String} {name : String} (h : c.listed = before ++ name :: behind)
      (before_known : ∀ other ∈ before, other ∈ knownTools) (unknown : name ∉ knownTools) :
      FirstFault c (.unknownTool name)
  /-- The least unknown name of a section, if the listed names are known. -/
  | sectionName {name : String} (listed_known : ∀ other ∈ c.listed, other ∈ knownTools)
      (h : name ∈ c.tools.keys) (unknown : name ∉ knownTools)
      (least : ∀ key ∈ c.tools.keys, key ∉ knownTools → name ≤ key) :
      FirstFault c (.unknownTool name)
  /-- The least name of a section with a blank program, if all names are known. -/
  | sectionProgram {tool : String} {settings : ToolSettings}
      (listed_known : ∀ other ∈ c.listed, other ∈ knownTools)
      (sections_known : ∀ key ∈ c.tools.keys, key ∈ knownTools)
      (h : (tool, settings) ∈ c.tools.entries) (blank : settings.HasBlankProgram)
      (least : ∀ entry ∈ c.tools.entries, entry.2.HasBlankProgram → tool ≤ entry.1) :
      FirstFault c (.blankProgram tool)

variable {c : Config}

/-! ### Unknown names -/

theorem unknownTool?_eq_none_iff :
    c.unknownTool? = none ↔
      (∀ name ∈ c.listed, name ∈ knownTools) ∧ ∀ key ∈ c.tools.keys, key ∈ knownTools := by
  rw [unknownTool?, List.find?_append, Option.or_eq_none_iff]
  simp only [List.find?_eq_none, decide_eq_true_eq, not_not, listed]

theorem unknownTool?_eq_some_iff {name : String} :
    c.unknownTool? = some name ↔ c.FirstFault (.unknownTool name) := by
  rw [unknownTool?, List.find?_append, Option.or_eq_some_iff,
    Dict.find?_eq_some_iff_least (f := id) c.tools.sorted_keys, List.find?_eq_some_iff_append]
  simp only [List.find?_eq_none, decide_eq_true_eq, not_not, Bool.not_eq_true', decide_eq_false_iff_not]
  constructor
  · rintro (⟨unknown, before, behind, h, before_known⟩ | ⟨listed_known, h, unknown, least⟩)
    · exact .listedName h before_known unknown
    · exact .sectionName listed_known h unknown least
  · intro h
    cases h with
    | listedName h before_known unknown => exact .inl ⟨unknown, _, _, h, before_known⟩
    | sectionName listed_known h unknown least => exact .inr ⟨listed_known, h, unknown, least⟩

/-! ### Blank programs -/

theorem blankProgram?_eq_none_iff :
    c.blankProgram? = none ↔ ∀ entry ∈ c.tools.entries, ¬entry.2.HasBlankProgram := by
  simp only [blankProgram?, Option.map_eq_none_iff, List.find?_eq_none,
    ToolSettings.hasBlankProgram_iff]

theorem blankProgram?_eq_some_iff {tool : String} :
    c.blankProgram? = some tool ↔
      ∃ settings, (tool, settings) ∈ c.tools.entries ∧ settings.HasBlankProgram ∧
        ∀ entry ∈ c.tools.entries, entry.2.HasBlankProgram → tool ≤ entry.1 := by
  simp only [blankProgram?, Option.map_eq_some_iff, Dict.find?_eq_some_iff_least c.tools.sorted,
    ToolSettings.hasBlankProgram_iff]
  constructor
  · rintro ⟨entry, h, rfl⟩
    exact ⟨entry.2, h⟩
  · rintro ⟨settings, h⟩
    exact ⟨(tool, settings), h, rfl⟩

theorem firstFault_blankProgram_iff {tool : String} :
    c.FirstFault (.blankProgram tool) ↔ c.unknownTool? = none ∧ c.blankProgram? = some tool := by
  rw [unknownTool?_eq_none_iff, blankProgram?_eq_some_iff]
  constructor
  · intro h
    cases h with
    | sectionProgram listed_known sections_known h blank least =>
      exact ⟨⟨listed_known, sections_known⟩, _, h, blank, least⟩
  · rintro ⟨⟨listed_known, sections_known⟩, _, h, blank, least⟩
    exact .sectionProgram listed_known sections_known h blank least

theorem runnable_iff : c.Runnable ↔ c.unknownTool? = none ∧ c.blankProgram? = none := by
  rw [unknownTool?_eq_none_iff, blankProgram?_eq_none_iff]
  exact ⟨fun h => ⟨⟨h.listed_known, h.sections_known⟩, h.programs⟩, fun h => ⟨h.1.1, h.1.2, h.2⟩⟩

/-! ### Validation -/

theorem validate_eq_ok_iff {d : Config} : c.validate = .ok d ↔ d = c ∧ c.Runnable := by
  rw [runnable_iff, validate]
  cases c.unknownTool? with
  | some name => simp
  | none =>
    cases c.blankProgram? with
    | some tool => simp
    | none => simp [eq_comm]

theorem validate_eq_error_iff {e : ConfigError} : c.validate = .error e ↔ c.FirstFault e := by
  constructor
  · intro h
    rw [validate] at h
    split at h
    · rename_i name hname
      cases h
      exact unknownTool?_eq_some_iff.1 hname
    · rename_i hunknown
      split at h
      · rename_i tool htool
        cases h
        exact firstFault_blankProgram_iff.2 ⟨hunknown, htool⟩
      · cases h
  · intro h
    cases e with
    | unknownTool name => rw [validate, unknownTool?_eq_some_iff.2 h]
    | blankProgram tool =>
      obtain ⟨hunknown, htool⟩ := firstFault_blankProgram_iff.1 h
      simp only [validate, hunknown, htool]
    | unreadable failure => cases h
    | malformed => cases h

/-- A listed tool that is known has a parser among those that the settings leave. -/
theorem exists_parser_of_listed {tool : String} (h : tool ∈ c.listed) (hknown : tool ∈ knownTools) :
    ∃ p ∈ (Toolchain.ofSettings c.lint).parsers, p.tool = tool := by
  have henabled : c.lint.isEnabled tool = true := by
    unfold listed at h
    unfold LintSettings.isEnabled
    cases htools : c.lint.tools with
    | none => rfl
    | some tools =>
      rw [htools] at h
      exact decide_eq_true h
  obtain ⟨p, hp, rfl⟩ := Toolchain.exists_builtinParser hknown c.lint.trailing
  refine ⟨p, ?_, rfl⟩
  rw [Toolchain.parsers_ofSettings]
  exact List.mem_filter.2 ⟨hp, henabled⟩

/-- Validation returns the configuration as it is if the configuration can be run, and the first
fault of it otherwise; it is what a text is put through once it is read as settings; and each tool
that an accepted configuration lists has a parser in the toolchain made from it. -/
theorem validate_reports_first_fault (c : Config) :
    (∀ d, c.validate = .ok d ↔ d = c ∧ c.Runnable) ∧
    (∀ e, c.validate = .error e ↔ c.FirstFault e) ∧
    (∀ d, c.validate = .ok d → ∀ tool ∈ d.listed,
      ∃ p ∈ (Toolchain.ofSettings d.lint).parsers, p.tool = tool) ∧
    ∀ text, (Toml.parse? text).bind ofEntries? = some c → ofText text = c.validate := by
  refine ⟨fun d => validate_eq_ok_iff, fun e => validate_eq_error_iff, ?_, ?_⟩
  · intro d h tool htool
    obtain ⟨rfl, hrunnable⟩ := validate_eq_ok_iff.1 h
    exact exists_parser_of_listed htool (hrunnable.listed_known tool htool)
  · intro text h
    obtain ⟨document, hdocument, hsettings⟩ := Option.bind_eq_some_iff.1 h
    simp only [ofText, hdocument, ofDocument, hsettings]

end Config

end LintReport
