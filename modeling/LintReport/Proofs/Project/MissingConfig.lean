import LintReport.Proofs.Paths
import LintReport.Proofs.Planning

/-! A configuration that is named and is not there. Nothing looks at the name itself: it is taken
for the directory of a project, and a configuration file that is missing below it stands for the
default settings. So the run goes on with them, unless looking below the name fails in another way
than by finding nothing. -/

namespace LintReport

namespace FileSystem

variable {fs : FileSystem} {p : Path}

theorem at?_ne_danglingLink (fs : FileSystem) (place : Place) :
    fs.at? place ≠ some .danglingLink := by
  unfold at?
  split
  · exact fun h => (FileTree.reached?_eq_some_iff.1 h).2 rfl
  · intro h
    cases h

theorem find?_ne_danglingLink : fs.find? p ≠ some .danglingLink := by
  unfold find?
  split
  · exact at?_ne_danglingLink fs _
  · intro h
    cases h

theorem find?_eq_none (hfile : fs.isFile p = false) (hdirectory : fs.isDirectory p = false) :
    fs.find? p = none := by
  unfold isFile at hfile
  unfold isDirectory at hdirectory
  cases h : fs.find? p with
  | none => rfl
  | some tree =>
    cases tree with
    | file content => simp [h] at hfile
    | directory entries => simp [h] at hdirectory
    | danglingLink => exact absurd h find?_ne_danglingLink

/-- At a path where nothing is, either the way ends early or it ends at nothing. -/
theorem locate_of_find?_eq_none (h : fs.find? p = none) {place : Place}
    (hplace : fs.locate p = .ok place) : fs.at? place = none := by
  simpa [find?, hplace] using h

theorem readText_of_locate {e : ReadFailure} (h : fs.locate p = .error e) :
    fs.readText p = .error e := by
  rw [readText, h]

end FileSystem

namespace Project

open FileSystem

variable {fs : FileSystem} {p : Path}

/-- The path of the configuration file of the project in a directory. -/
def configFile (directory : Path) : Path := directory.join Config.fileName

theorem isAbsolute_fileName : Config.fileName.isAbsolute = false := by decide

/-- The way to a path is barred before its end, or too long to be gone on to a configuration file
below it. -/
def Barred (fs : FileSystem) (p : Path) : Prop :=
  (∃ e, e ≠ .notFound ∧ fs.locate p = .error e) ∨
    pathLimit < (configFile p).text.utf8ByteSize

section BelowAPath

variable (hp : p.text ≠ "")
include hp

theorem mem_configFile : '\x00' ∈ (configFile p).text.toList ↔ '\x00' ∈ p.text.toList := by
  obtain ⟨front, hjoin, hfront⟩ := Path.toList_join hp isAbsolute_fileName
  rw [configFile, hjoin]
  rcases hfront with h | h <;> simp [h, Config.fileName]

theorem configFile_ne_empty : (configFile p).text ≠ "" := by
  obtain ⟨front, hjoin, -⟩ := Path.toList_join hp isAbsolute_fileName
  intro h
  have hnil := congrArg String.toList h
  rw [configFile, hjoin] at hnil
  simp at hnil

theorem fault?_configFile : fault? (configFile p) =
    if '\x00' ∈ p.text.toList then some .nulInPath
    else if pathLimit < (configFile p).text.utf8ByteSize then some .nameTooLong
    else none := by
  simp only [fault?, mem_configFile hp, configFile_ne_empty hp, if_false]

/-- What is wrong with the path of the file is never that nothing is there. -/
theorem locate_configFile_of_long (h : pathLimit < (configFile p).text.utf8ByteSize) :
    ∃ e, e ≠ .notFound ∧ fs.locate (configFile p) = .error e := by
  by_cases hnul : '\x00' ∈ p.text.toList
  · exact ⟨.nulInPath, by decide, locate_of_fault? (by simp [fault?_configFile hp, hnul])⟩
  · exact ⟨.nameTooLong, by decide, locate_of_fault? (by simp [fault?_configFile hp, hnul, h])⟩

/-- Unless its name is too long, the way to the file is the way to its directory and one step. -/
theorem locate_configFile (h : ¬ pathLimit < (configFile p).text.utf8ByteSize) :
    fs.locate (configFile p) =
      fs.locate p >>= fun place => fs.step place Config.fileName.text := by
  by_cases hnul : '\x00' ∈ p.text.toList
  · have hbelow : fault? (configFile p) = some .nulInPath := by simp [fault?_configFile hp, hnul]
    have habove : fault? p = some .nulInPath := by simp [fault?, hnul]
    rw [locate_of_fault? hbelow, locate_of_fault? habove]
    rfl
  · have hbelow : fault? (configFile p) = none := by simp [fault?_configFile hp, hnul, h]
    have hsteps : Config.fileName.steps = [Config.fileName.text] := by decide
    rw [configFile, locate_join hp isAbsolute_fileName hbelow, hsteps]
    simp

theorem locate_configFile_of_barred (h : Barred fs p) :
    ∃ e, e ≠ .notFound ∧ fs.locate (configFile p) = .error e := by
  by_cases hlong : pathLimit < (configFile p).text.utf8ByteSize
  · exact locate_configFile_of_long hp hlong
  · obtain ⟨e, he, hlocate⟩ := h.resolve_right hlong
    refine ⟨e, he, ?_⟩
    rw [locate_configFile hp hlong, hlocate]
    rfl

theorem locate_configFile_of_missing (hmissing : fs.find? p = none) (h : ¬ Barred fs p) :
    fs.locate (configFile p) = .error .notFound := by
  rw [Barred, not_or] at h
  obtain ⟨hfound, hlong⟩ := h
  rw [locate_configFile hp hlong]
  cases hlocate : fs.locate p with
  | error e =>
    have he : e = .notFound := Classical.byContradiction fun he => hfound ⟨e, he, hlocate⟩
    rw [he]
    rfl
  | ok place =>
    have hat := locate_of_find?_eq_none hmissing hlocate
    simp [bind, Except.bind, step, hat]

end BelowAPath

/-! ### The settings -/

theorem root_of_not_isFile (h : fs.isFile p = false) : root fs (some p) = .ok p := by
  simp [root, h]

theorem loadConfig_of_not_isFile (h : fs.isFile p = false) (directory : Path) :
    loadConfig fs (some p) directory = (Config.loadOrDefault fs directory).mapError .config := by
  simp [loadConfig, h]

theorem load_of_locate {directory : Path} {e : ReadFailure}
    (h : fs.locate (configFile directory) = .error e) :
    Config.load fs directory = .error (.unreadable e) := by
  rw [Config.load, ← configFile, readText_of_locate h]

theorem loadOrDefault_of_error {directory : Path} {e : ConfigError} (he : e ≠ .unreadable .notFound)
    (h : Config.load fs directory = .error e) : Config.loadOrDefault fs directory = .error e := by
  rw [Config.loadOrDefault, h]
  split
  · rename_i heq
    cases heq
    exact absurd rfl he
  · rfl

/-- Below a path where nothing is, there is no configuration file, and only a barred way to one is
a fault. -/
theorem loadOrDefault_of_missing (hp : p.text ≠ "") (hmissing : fs.find? p = none) :
    (Barred fs p → ∃ e, Config.loadOrDefault fs p = .error e) ∧
      (¬ Barred fs p → Config.loadOrDefault fs p = .ok {}) := by
  constructor
  · intro h
    obtain ⟨e, he, hlocate⟩ := locate_configFile_of_barred hp h
    have hne : ConfigError.unreadable e ≠ .unreadable .notFound :=
      fun heq => he (ConfigError.unreadable.inj heq)
    exact ⟨_, loadOrDefault_of_error hne (load_of_locate hlocate)⟩
  · intro h
    rw [Config.loadOrDefault, load_of_locate (locate_configFile_of_missing hp hmissing h)]

end Project

namespace CommandLine

open Project

variable {w : World} {c : CommandLine} {name : String}

/-- A name that is no file is taken for the directory of the project. -/
theorem plan_of_not_isFile (hc : c.config = some name) (hfile : w.files.isFile ⟨name⟩ = false) :
    c.plan w = ((Config.loadOrDefault w.files ⟨name⟩).mapError .config).map
      (Plan.ofConfig w c.command.scan ⟨name⟩) := by
  have hroot := root_of_not_isFile hfile
  have hload := loadConfig_of_not_isFile hfile ⟨name⟩
  rw [plan, hc, Option.map_some]
  cases h : Config.loadOrDefault w.files ⟨name⟩ with
  | error e =>
    rw [h] at hload
    exact Plan.make_of_error hroot hload
  | ok config =>
    rw [h] at hload
    exact Plan.make_of_ok hroot hload

/-- A name that is neither a file nor a directory is refused only where the way to it is barred.
Everywhere else the run goes on in it with the default settings; and an empty name is no name: the
configuration file of the working directory then holds, if there is one. -/
theorem run_of_missing_config (hc : c.config = some name)
    (hfile : w.files.isFile ⟨name⟩ = false) (hdirectory : w.files.isDirectory ⟨name⟩ = false) :
    (name ≠ "" → Barred w.files ⟨name⟩ → ∃ failure : Failure,
      c.run w = { status := 1, stderr := "error: " ++ failure.message ++ "\n" }) ∧
    (name ≠ "" → ¬ Barred w.files ⟨name⟩ →
      ∃ p, c.plan w = .ok p ∧ p.directory = ⟨name⟩ ∧ p.config = {}) ∧
    (name = "" → (c.plan w).map Plan.config =
      (Config.loadOrDefault w.files ⟨""⟩).mapError .config) := by
  have hmissing := FileSystem.find?_eq_none hfile hdirectory
  have hplan := plan_of_not_isFile hc hfile
  refine ⟨?_, ?_, ?_⟩
  · intro hname hbarred
    obtain ⟨e, he⟩ := (loadOrDefault_of_missing hname hmissing).1 hbarred
    rw [he] at hplan
    exact ⟨_, run_of_error hplan⟩
  · intro hname hbarred
    rw [(loadOrDefault_of_missing hname hmissing).2 hbarred] at hplan
    exact ⟨_, hplan, rfl, rfl⟩
  · rintro rfl
    rw [hplan]
    cases Config.loadOrDefault w.files ⟨""⟩ <;> rfl

/-- Files among which `missing.toml` is neither a file nor a directory. -/
def withoutConfig : World := .ofEntries [("src", .directory [("a.py", .file [])])]

/-- A command line that names `missing.toml` as the configuration. -/
def namingMissing : CommandLine where
  quiet := false
  verbose := false
  color := .auto
  config := some "missing.toml"
  command := .lint {} none

theorem run_of_missing_config_toml :
    namingMissing.config = some "missing.toml" ∧
      withoutConfig.files.isFile ⟨"missing.toml"⟩ = false ∧
      withoutConfig.files.isDirectory ⟨"missing.toml"⟩ = false ∧
      ¬ Barred withoutConfig.files ⟨"missing.toml"⟩ ∧
      ∃ p, namingMissing.plan withoutConfig = .ok p ∧ p.directory = ⟨"missing.toml"⟩ ∧
        p.config = {} := by
  have hfile : withoutConfig.files.isFile ⟨"missing.toml"⟩ = false := by decide +kernel
  have hdirectory : withoutConfig.files.isDirectory ⟨"missing.toml"⟩ = false := by decide +kernel
  have hbarred : ¬ Barred withoutConfig.files ⟨"missing.toml"⟩ := by
    have hlocate : withoutConfig.files.locate ⟨"missing.toml"⟩ = .error .notFound := by rfl
    rw [Barred, hlocate]
    rintro (⟨e, he, heq⟩ | hlong)
    · exact he (Except.error.inj heq).symm
    · exact absurd hlong (by decide +kernel)
  exact ⟨rfl, hfile, hdirectory, hbarred,
    (run_of_missing_config rfl hfile hdirectory).2.1 (by decide) hbarred⟩

/-- A named configuration that is not there does not make the run fail. -/
theorem run_withoutConfig :
    withoutConfig.files.isFile ⟨"missing.toml"⟩ = false ∧
      withoutConfig.files.isDirectory ⟨"missing.toml"⟩ = false ∧
      LintReport.run withoutConfig ["--config", "missing.toml", "lint"] = {
        status := 0
        stderr := "warning: nothing to lint: no paths given and no src/ or tests/ in missing.toml\n" } := by
  decide +kernel

end CommandLine

end LintReport
