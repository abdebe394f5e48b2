import LintReport.Proofs.Planning
import LintReport.Proofs.Project.Packages
import LintReport.Proofs.Utf8

/-! What the paths that are handed to the tools mean. A path of the command line is meant from the
working directory, one of the configuration, or a usual one, from the directory of the project. The
tools run in the directory of the project and are handed the first kind as it is written, the
others joined to the directory as it is spelled from the working directory. A call keeps the
meaning of all its paths if and only if each of them, as written, spells the same from where it is
meant and from where the tool ends up reading it. -/

namespace LintReport

open FileSystem (spelled)

namespace Plan

variable {w : World} {named : Option Path} {scan : ScanRequest} {p : Plan}

/-- The location of the project's directory, in which the tools run. -/
def base (p : Plan) (fs : FileSystem) : Location := spelled fs.cwd.location p.directory

/-- The paths to scan as they are written: on the command line, in the configuration, or as the
usual names of those directories that there are. -/
def written (p : Plan) (fs : FileSystem) (scan : ScanRequest) : List Path :=
  if scan.paths ≠ [] then scan.paths.map Path.mk
  else if p.settings.paths ≠ [] then p.settings.paths.map Path.mk
  else
    (if p.settings.tests then [⟨"src"⟩, ⟨"tests"⟩] else [⟨"src"⟩]).filter
      fun q => fs.isDirectory (p.directory.join q)

/-- A written path as the tools are handed it. -/
def handed (p : Plan) (scan : ScanRequest) (q : Path) : Path :=
  if scan.paths ≠ [] then q else p.directory.join q

/-- The location from which the written paths are meant. -/
def meantFrom (p : Plan) (fs : FileSystem) (scan : ScanRequest) : Location :=
  if scan.paths ≠ [] then fs.cwd.location else p.base fs

/-- The location from which the tools read the written paths. -/
def readFrom (p : Plan) (fs : FileSystem) (scan : ScanRequest) : Location :=
  if scan.paths ≠ [] then p.base fs else spelled (p.base fs) p.directory

theorem handed_of_paths (h : scan.paths ≠ []) : p.handed scan = id := by
  funext q
  exact if_pos h

theorem handed_of_no_paths (h : scan.paths = []) : p.handed scan = p.directory.join := by
  funext q
  exact if_neg (not_not_intro h)

theorem paths_of_make (h : make w named scan = .ok p) :
    p.paths = (p.written w.files scan).map (p.handed scan) := by
  obtain ⟨directory, config, -, -, rfl⟩ := exists_of_make h
  by_cases hexplicit : scan.paths = []
  · rw [handed_of_no_paths hexplicit]
    by_cases hconfigured : (config.lint.narrow scan).paths = []
    · simp only [ofConfig, written, Project.sources, hexplicit, hconfigured, List.map_nil, ne_eq,
        not_true, if_false]
      rw [List.filter_map]
      rfl
    · simp [ofConfig, written, Project.sources, hexplicit, hconfigured]
  · rw [handed_of_paths hexplicit]
    simp [ofConfig, written, Project.sources, hexplicit]

theorem spelled_handed (p : Plan) (fs : FileSystem) (scan : ScanRequest) (q : Path) :
    spelled (p.base fs) (p.handed scan q) = spelled (p.readFrom fs scan) q := by
  unfold handed readFrom
  split
  · rfl
  · rw [FileSystem.spelled_join]

/-- From the working directory a handed path means what it should. -/
theorem spelled_cwd_handed (p : Plan) (fs : FileSystem) (scan : ScanRequest) (q : Path) :
    spelled fs.cwd.location (p.handed scan q) = spelled (p.meantFrom fs scan) q := by
  unfold handed meantFrom
  split
  · rfl
  · rw [FileSystem.spelled_join]
    rfl

/-- In the directory of the project itself, nothing is read from elsewhere. -/
theorem readFrom_eq_meantFrom (h : p.base w.files = w.files.cwd.location) :
    p.readFrom w.files scan = p.meantFrom w.files scan := by
  unfold readFrom meantFrom
  split
  · exact h
  · rw [h]
    exact h

/-- Nor is it when the directory is spelled from the root and the command line gives no paths. -/
theorem readFrom_eq_meantFrom_of_isAbsolute (h : p.directory.isAbsolute = true)
    (hscan : scan.paths = []) : p.readFrom w.files scan = p.meantFrom w.files scan := by
  rw [readFrom, meantFrom, if_neg (not_not_intro hscan), if_neg (not_not_intro hscan)]
  exact FileSystem.spelled_of_isAbsolute h _ _

/-- The directory of a project that is found, and not named, is spelled from the root. -/
theorem isAbsolute_directory (h : make w none scan = .ok p) : p.directory.isAbsolute = true := by
  obtain ⟨directory, config, hroot, -, rfl⟩ := exists_of_make h
  rw [ofConfig]
  cases hcwd : w.files.cwdPath? with
  | none =>
    rw [Project.root, hcwd] at hroot
    cases hroot
  | some cwd =>
    have habsolute := FileSystem.isAbsolute_of_cwdPath? hcwd
    rw [Project.root_of_unnamed hcwd rfl] at hroot
    cases hroot
    cases hfound : Project.findRoot? w.files cwd with
    | none => exact habsolute
    | some found =>
      exact Path.isAbsolute_of_mem_ancestors habsolute (List.mem_of_find?_eq_some hfound)

/-- What an argument says of the place that is meant by the path it is given for: that place, or,
when mypy is given the packages of a source root, a directory in it. -/
def Means (fs : FileSystem) (tool : String) (base meant : Location) (path argument : Path) : Prop :=
  if tool = "mypy" ∧ Project.isSourceRoot fs path then
    ∃ name entries, spelled base argument = meant ++ [name] ∧
      fs.tree.at? (meant ++ [name]) = some (.directory entries)
  else spelled base argument = meant

/-- A call of a tool says what is meant with each of its paths, and the search path of mypy names
source roots where they are meant. -/
structure KeepsMeaning (p : Plan) (fs : FileSystem) (scan : ScanRequest) (call : Invocation) :
    Prop where
  arguments : ∀ q ∈ p.written fs scan,
    ∀ argument ∈ Invocation.argumentsFor fs call.tool (p.handed scan q),
      Means fs call.tool (p.base fs) (spelled (p.meantFrom fs scan) q) (p.handed scan q) argument
  searchPath : call.tool = "mypy" →
    ∀ joined, Invocation.moduleSearchPath? fs p.paths = some joined →
      ∀ entry ∈ joined.toList.splitOn ':', ∃ q ∈ p.written fs scan,
        Project.isSourceRoot fs (p.handed scan q) = true ∧
          spelled (p.base fs) ⟨String.ofList entry⟩ = spelled (p.meantFrom fs scan) q

section KeepsMeaning

variable {fs : FileSystem} {call : Invocation}

theorem exists_mem_packages {path : Path} (h : Project.isSourceRoot fs path = true) :
    ∃ a, a ∈ Project.packages fs path := by
  simp only [Project.isSourceRoot, Bool.and_eq_true, Bool.not_eq_true', List.isEmpty_eq_false_iff]
    at h
  exact List.exists_mem_of_ne_nil _ h.2

/-- A call that keeps the meaning of its arguments reads the written paths as they are meant. -/
theorem KeepsMeaning.spelled_eq (hwell : fs.tree.wellNamed = true)
    (h : p.KeepsMeaning fs scan call) {q : Path} (hq : q ∈ p.written fs scan) :
    spelled (p.readFrom fs scan) q = spelled (p.meantFrom fs scan) q := by
  have harguments := h.arguments q hq
  unfold Invocation.argumentsFor Means at harguments
  rw [← spelled_handed]
  by_cases hroot : call.tool = "mypy" ∧ Project.isSourceRoot fs (p.handed scan q)
  · simp only [if_pos hroot] at harguments
    -- Any one of the packages tells where its source root is.
    obtain ⟨a, ha⟩ := exists_mem_packages hroot.2
    obtain ⟨name, entries, hspelled, -⟩ := harguments a ha
    obtain ⟨name', -, hpackage, -⟩ := Project.spelled_of_mem_packages hwell ha
    rw [hpackage] at hspelled
    exact (List.append_inj' hspelled rfl).1
  · simp only [if_neg hroot] at harguments
    exact harguments _ (List.mem_singleton_self _)

theorem keepsMeaning_of_spelled_eq (hwell : fs.tree.wellNamed = true)
    (hpaths : p.paths = (p.written fs scan).map (p.handed scan))
    (h : ∀ q ∈ p.written fs scan,
      spelled (p.readFrom fs scan) q = spelled (p.meantFrom fs scan) q) :
    p.KeepsMeaning fs scan call where
  arguments := by
    intro q hq a ha
    have hspelled := (p.spelled_handed fs scan q).trans (h q hq)
    unfold Invocation.argumentsFor at ha
    unfold Means
    split
    · rename_i hroot
      rw [if_pos hroot] at ha
      obtain ⟨name, entries, hpackage, hat⟩ := Project.spelled_of_mem_packages hwell ha
      rw [spelled_cwd_handed] at hat
      exact ⟨name, entries, by rw [hpackage, hspelled], hat⟩
    · rename_i hroot
      rw [if_neg hroot, List.mem_singleton] at ha
      rw [ha, hspelled]
  searchPath := by
    intro _ joined hjoined entry hentry
    rw [Invocation.splitOn_moduleSearchPath? hjoined, hpaths] at hentry
    obtain ⟨path, hpath, rfl⟩ := List.mem_map.1 hentry
    obtain ⟨hmem, hroot⟩ := List.mem_filter.1 hpath
    obtain ⟨q, hq, rfl⟩ := List.mem_map.1 hmem
    refine ⟨q, hq, hroot, ?_⟩
    rw [String.ofList_toList]
    exact (p.spelled_handed fs scan q).trans (h q hq)

end KeepsMeaning

theorem mem_calls {call : Invocation} {fs : FileSystem} (h : call ∈ p.calls fs) :
    call.paths = p.paths.flatMap (Invocation.argumentsFor fs call.tool) := by
  obtain ⟨tool, -, rfl⟩ := List.mem_map.1 h
  exact Invocation.paths_build fs p.config p.paths p.ci tool

/-- The tools run in the directory of the project. A call is given its arguments path by path, and
keeps their meaning exactly if every path, as it is written, spells the same from where it is meant
and from where it is read; which is so when the run begins in that directory, and when the
directory is spelled from the root, as one that is found always is, and the command line gives no
paths. -/
theorem meaning_of_handed_paths (h : make w named scan = .ok p)
    (hwell : w.files.tree.wellNamed = true) :
    (∀ place, w.files.locate p.directory = .ok place → place.location = p.base w.files) ∧
    (∀ call ∈ p.calls w.files,
      call.paths = (p.written w.files scan).flatMap
        (fun q => Invocation.argumentsFor w.files call.tool (p.handed scan q)) ∧
      (p.KeepsMeaning w.files scan call ↔ ∀ q ∈ p.written w.files scan,
        spelled (p.readFrom w.files scan) q = spelled (p.meantFrom w.files scan) q)) ∧
    (p.base w.files = w.files.cwd.location ∨ p.directory.isAbsolute = true ∧ scan.paths = [] →
      ∀ call ∈ p.calls w.files, p.KeepsMeaning w.files scan call) ∧
    (named = none → p.directory.isAbsolute = true) := by
  have hpaths := paths_of_make h
  refine ⟨fun place hplace => FileSystem.location_of_locate hplace, ?_, ?_, ?_⟩
  · intro call hcall
    refine ⟨?_, fun hkeeps q hq => hkeeps.spelled_eq hwell hq,
      keepsMeaning_of_spelled_eq hwell hpaths⟩
    rw [mem_calls hcall, hpaths, List.flatMap_map]
  · intro hbase call _
    have hfrom : p.readFrom w.files scan = p.meantFrom w.files scan := by
      rcases hbase with hcwd | ⟨habsolute, hscan⟩
      · exact readFrom_eq_meantFrom hcwd
      · exact readFrom_eq_meantFrom_of_isAbsolute habsolute hscan
    exact keepsMeaning_of_spelled_eq hwell hpaths fun q _ => by rw [hfrom]
  · rintro rfl
    exact isAbsolute_directory h

/-- A project with a package below `src`, at the root. -/
def projectAtRoot : World := .ofEntries [
  ("sieve.toml", .file []),
  ("src", .directory [("pkg", .directory [])])]

/-- At the project itself the usual directory keeps its meaning, as does its package. -/
theorem keepsMeaning_projectAtRoot :
    make projectAtRoot (some ⟨"sieve.toml"⟩) {} = .ok (ofConfig projectAtRoot {} ⟨"."⟩ {}) ∧
      projectAtRoot.files.tree.wellNamed = true ∧
      (ofConfig projectAtRoot {} ⟨"."⟩ {}).base projectAtRoot.files =
        projectAtRoot.files.cwd.location ∧
      ∀ call ∈ (ofConfig projectAtRoot {} ⟨"."⟩ {}).calls projectAtRoot.files,
        (ofConfig projectAtRoot {} ⟨"."⟩ {}).KeepsMeaning projectAtRoot.files {} call := by
  have hmake : make projectAtRoot (some ⟨"sieve.toml"⟩) {} =
      .ok (ofConfig projectAtRoot {} ⟨"."⟩ {}) := make_of_ok rfl rfl
  have hwell : projectAtRoot.files.tree.wellNamed = true := by decide +kernel
  have hbase : (ofConfig projectAtRoot {} ⟨"."⟩ {}).base projectAtRoot.files =
      projectAtRoot.files.cwd.location := by decide +kernel
  exact ⟨hmake, hwell, hbase, (meaning_of_handed_paths hmake hwell).2.2.1 (.inl hbase)⟩

/-- A project below the directory from which it is named, with a path of its own to scan. -/
def projectBelow : World := .ofEntries [
  ("sub", .directory [
    ("sieve.toml", .file (Text.Utf8.encode "lint.paths = ['app']".toList)),
    ("app", .directory [("a.py", .file [])])])]

/-- The plan for flake8 in it. -/
def planBelow : Plan :=
  ofConfig projectBelow { tools := ["flake8"] } ⟨"sub"⟩ { lint := { paths := ["app"] } }

/-- Named from above, the path `app` of the project in `sub` is handed over as `sub/app` to a tool
that runs in `sub`, and there spells a directory that is not there. -/
theorem not_keepsMeaning_planBelow :
    make projectBelow (some ⟨"sub/sieve.toml"⟩) { tools := ["flake8"] } = .ok planBelow ∧
      (planBelow.calls projectBelow.files).map Invocation.paths = [[⟨"sub/app"⟩]] ∧
      planBelow.base projectBelow.files = ["sub"] ∧
      spelled ["sub"] ⟨"app"⟩ = ["sub", "app"] ∧
      spelled ["sub"] ⟨"sub/app"⟩ = ["sub", "sub", "app"] ∧
      ∀ call ∈ planBelow.calls projectBelow.files,
        ¬ planBelow.KeepsMeaning projectBelow.files { tools := ["flake8"] } call := by
  refine ⟨make_of_ok rfl rfl, by decide +kernel, by decide +kernel, by decide +kernel,
    by decide +kernel, ?_⟩
  intro call _ hkeeps
  have hwritten : ⟨"app"⟩ ∈ planBelow.written projectBelow.files { tools := ["flake8"] } := by
    decide +kernel
  have hspelled := hkeeps.spelled_eq (by decide +kernel) hwritten
  exact absurd hspelled (by decide +kernel)

end Plan

end LintReport
