import LintReport.Proofs.Isolation

/-! Restricting a toolchain to some of its tools. What is left of a run are the diagnostics of those
tools; what is left of the lists of names are the names of those tools. The settings restrict the
toolchain of all known parsers in this way. -/

namespace LintReport.Toolchain

/-- The names of the known parsers, each with its tool. -/
def builtinNames : List (String × String) := [
  ("isort-diff", "isort"),
  ("black-errors", "black"),
  ("black-diff", "black"),
  ("flake8", "flake8"),
  ("mypy", "mypy"),
  ("pylint", "pylint"),
  ("pydocstyle", "pydocstyle")]

/-- The unrestricted toolchain. -/
def builtins (trailing : Diff.Trailing) : Toolchain := empty.registerBuiltins trailing

theorem ofSettings_eq_retain (s : LintSettings) :
    ofSettings s = (builtins s.trailing).retain s.isEnabled := rfl

theorem parsers_ofSettings (s : LintSettings) :
    (ofSettings s).parsers = (builtinParsers s.trailing).filter fun p => s.isEnabled p.tool := rfl

/-! ### Parsers that are kept -/

section Retain
variable (t : Toolchain) (keep also : String → Bool)

theorem retain_retain :
    (t.retain keep).retain also = t.retain fun tool => keep tool && also tool := by
  simp only [retain, List.filter_filter]
  congr 2
  funext p
  exact Bool.and_comm _ _

theorem retain_comm : (t.retain keep).retain also = (t.retain also).retain keep := by
  rw [retain_retain, retain_retain]
  congr 1
  funext tool
  exact Bool.and_comm _ _

theorem retain_true : (t.retain fun _ => true) = t := by
  simp [retain]

/-- The run of the parsers that are kept is what is kept of the run. -/
theorem toList_run_retain (outputs : ToolOutputs) :
    ((t.retain keep).run outputs).toList =
      (t.run outputs).toList.filter fun d => keep d.source := by
  rw [filter_source_toList_run, toList_run, retain]
  induction t.parsers with
  | nil => rfl
  | cons p ps ih =>
    rw [List.filter_cons, List.flatMap_cons, ← ih]
    split
    · rw [List.flatMap_cons]
    · rw [List.nil_append]

theorem parserNames_retain :
    (t.retain keep).parserNames =
      ((t.parsers.map fun p => (p.name, p.tool)).filter fun n => keep n.2).map Prod.fst := by
  rw [List.filter_map, List.map_map]
  rfl

end Retain

/-! ### Each tool once -/

/-- The tools of some parsers behind those met before. -/
def meet (met : List String) (p : Parser) : List String :=
  if p.tool ∈ met then met else met ++ [p.tool]

theorem tools_eq_foldl (t : Toolchain) : t.tools = t.parsers.foldl meet [] := rfl

theorem nodup_meet {met : List String} (h : met.Nodup) (p : Parser) : (meet met p).Nodup := by
  unfold meet
  split
  · exact h
  · rename_i hp
    rw [List.nodup_append]
    refine ⟨h, List.pairwise_singleton _ _, ?_⟩
    intro a ha b hb
    rw [List.mem_singleton.1 hb]
    rintro rfl
    exact hp ha

theorem nodup_foldl_meet (ps : List Parser) {met : List String} (h : met.Nodup) :
    (ps.foldl meet met).Nodup := by
  induction ps generalizing met with
  | nil => exact h
  | cons p ps ih => exact ih (nodup_meet h p)

theorem nodup_tools (t : Toolchain) : t.tools.Nodup := by
  rw [tools_eq_foldl]
  exact nodup_foldl_meet t.parsers List.nodup_nil

/-- A tool that is kept is met where it was met before, and one that is not is not met. -/
theorem filter_meet (keep : String → Bool) (met : List String) (p : Parser) :
    (meet met p).filter keep = if keep p.tool then meet (met.filter keep) p else met.filter keep := by
  unfold meet
  by_cases hkeep : keep p.tool = true
  · by_cases hmet : p.tool ∈ met <;> simp [hkeep, hmet]
  · by_cases hmet : p.tool ∈ met <;> simp [hkeep, hmet]

theorem foldl_meet_filter (keep : String → Bool) (ps : List Parser) (met : List String) :
    (ps.filter fun p => keep p.tool).foldl meet (met.filter keep) =
      (ps.foldl meet met).filter keep := by
  induction ps generalizing met with
  | nil => rfl
  | cons p ps ih =>
    rw [List.foldl_cons, ← ih, filter_meet, List.filter_cons]
    split <;> rfl

theorem tools_retain (t : Toolchain) (keep : String → Bool) :
    (t.retain keep).tools = t.tools.filter keep := by
  rw [tools_eq_foldl, tools_eq_foldl]
  exact foldl_meet_filter keep t.parsers []

theorem tools_builtins (trailing : Diff.Trailing) : (builtins trailing).tools = knownTools := by
  cases trailing <;> decide +kernel

theorem names_builtins (trailing : Diff.Trailing) :
    (builtins trailing).parsers.map (fun p => (p.name, p.tool)) = builtinNames := rfl

theorem exists_builtinParser {tool : String} (h : tool ∈ knownTools) (trailing : Diff.Trailing) :
    ∃ p ∈ builtinParsers trailing, p.tool = tool := by
  have hall : ∀ tool ∈ knownTools, ∃ p ∈ builtinParsers trailing, p.tool = tool := by
    cases trailing <;> decide
  exact hall tool h

/-- The tools of a toolchain made by settings are the enabled ones among those that are known. -/
theorem tools_ofSettings (s : LintSettings) :
    (ofSettings s).tools = knownTools.filter s.isEnabled := by
  rw [ofSettings_eq_retain, tools_retain, tools_builtins]

/-- Settings without a list of tools restrict nothing. -/
theorem ofSettings_without_tools (s : LintSettings) :
    ofSettings { s with tools := none } = builtins s.trailing := by
  rw [ofSettings_eq_retain]
  exact retain_true _

/-- Restricting the tools is choosing from the report. The settings leave of the run of all known
parsers, of their names and of the known tools what belongs to an enabled tool; and whatever the
parsers are, keeping some tools keeps their diagnostics, so that one choice after another is the
choice of what both allow. -/
theorem restriction_filters (s : LintSettings) (t : Toolchain) (keep also : String → Bool) :
    (∀ outputs, ((ofSettings s).run outputs).toList =
      ((ofSettings { s with tools := none }).run outputs).toList.filter
        fun d => s.isEnabled d.source) ∧
    (ofSettings s).parserNames = (builtinNames.filter fun n => s.isEnabled n.2).map Prod.fst ∧
    (ofSettings s).tools.Nodup ∧
    (ofSettings s).tools = knownTools.filter s.isEnabled ∧
    (∀ outputs, ((t.retain keep).run outputs).toList =
      (t.run outputs).toList.filter fun d => keep d.source) ∧
    (t.retain keep).retain also = t.retain (fun tool => keep tool && also tool) ∧
    (t.retain keep).retain also = (t.retain also).retain keep := by
  refine ⟨?_, ?_, nodup_tools _, tools_ofSettings s, t.toList_run_retain keep,
    t.retain_retain keep also, t.retain_comm keep also⟩
  · intro outputs
    rw [ofSettings_without_tools, ofSettings_eq_retain]
    exact (builtins s.trailing).toList_run_retain s.isEnabled outputs
  · rw [ofSettings_eq_retain, parserNames_retain, names_builtins]

end LintReport.Toolchain
