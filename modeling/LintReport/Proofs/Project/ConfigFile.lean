import LintReport.Proofs.Project.Ancestors
import LintReport.Proofs.Utf8

/-! The configuration file of a directory at or above the working directory. It is found if its path
can be opened and it is a file, and then what it holds, good or bad, is loaded. The defaults are loaded
only where nothing is reached in its place, which a link that leads nowhere does not change. -/

namespace LintReport

open FileSystem (absolute fault?)
open FileTree (IsNamed)

namespace FileSystem

/-- The working directory is one of the directories of a tree whose entries have proper names. -/
structure StandsInTree (fs : FileSystem) : Prop where
  wellNamed : fs.tree.wellNamed = true
  notRemoved : fs.cwd.removed = 0
  isDirectory : ∃ entries, fs.tree.at? fs.cwd.location = some (.directory entries)

variable {fs : FileSystem} {here : Location}

namespace StandsInTree

variable (h : fs.StandsInTree)
include h

theorem isNamed (habove : here <+: fs.cwd.location) : IsNamed here := by
  obtain ⟨entries, hat⟩ := h.isDirectory
  have hcwd := FileTree.isNamed_of_at? h.wellNamed hat
  exact fun name hname => hcwd name (habove.subset hname)

/-- All that is above a directory is a directory. -/
theorem exists_directory (habove : here <+: fs.cwd.location) :
    ∃ entries, fs.tree.at? here = some (.directory entries) := by
  obtain ⟨rest, hrest⟩ := habove
  obtain ⟨entries, hat⟩ := h.isDirectory
  rw [← hrest, FileTree.at?_append, Option.bind_eq_some_iff] at hat
  obtain ⟨tree, htree, hbelow⟩ := hat
  cases tree with
  | directory above => exact ⟨above, htree⟩
  | file content => cases rest <;> cases hbelow
  | danglingLink => cases rest <;> cases hbelow

theorem cwdPath? : fs.cwdPath? = some (absolute fs.cwd.location) := by
  rw [FileSystem.cwdPath?, if_pos h.notRemoved]

end StandsInTree

end FileSystem

namespace Project

variable {fs : FileSystem} {here : Location} {content : Bytes}

/-- The location of the configuration file of the directory at a location. -/
def configEntry (here : Location) : Location := here ++ [Config.fileName.text]

/-- The directory at a location has a configuration file with this content. -/
def HoldsConfig (fs : FileSystem) (here : Location) (content : Bytes) : Prop :=
  fs.tree.at? (configEntry here) = some (.file content)

/-- The path of the configuration file of the directory at a location is one that can be opened. No
name of a file has a NUL in it, so only the length counts. -/
structure CanBeOpened (here : Location) : Prop where
  fits : (configFile (absolute here)).text.utf8ByteSize ≤ FileSystem.pathLimit
  nul_free : '\x00' ∉ (absolute here).text.toList

/-- There is no entry at a location, or only a link that leads nowhere. -/
def IsVacant (fs : FileSystem) (here : Location) : Prop :=
  fs.tree.at? here = none ∨ fs.tree.at? here = some .danglingLink

/-- The configuration in the content of a file. -/
def configOf (content : Bytes) : Except ConfigError Config :=
  match Text.Utf8.text? content with
  | some text => Config.ofText text
  | none => .error (.unreadable .notText)

theorem configOf_ne_notFound (content : Bytes) :
    configOf content ≠ .error (.unreadable .notFound) := by
  unfold configOf Config.ofText Config.ofDocument Config.validate
  intro h
  repeat' split at h
  all_goals cases h

/-- The defaults replace nothing but a missing file. -/
theorem loadOrDefault_eq_load {directory : Path}
    (h : Config.load fs directory ≠ .error (.unreadable .notFound)) :
    Config.loadOrDefault fs directory = Config.load fs directory := by
  rw [Config.loadOrDefault]
  split
  · rename_i hmissing
    exact absurd hmissing h
  · rfl

theorem fault?_configFile_ne_notFound {p : Path} (hp : p.text ≠ "") :
    fault? (configFile p) ≠ some .notFound := by
  rw [fault?_configFile hp]
  split
  · decide
  · split <;> decide

theorem canBeOpened_iff : CanBeOpened here ↔ fault? (configFile (absolute here)) = none := by
  have hnonempty := Path.absolute_ne_empty here
  rw [FileSystem.fault?_eq_none, mem_configFile hnonempty, Nat.not_lt]
  exact ⟨fun h => ⟨h.nul_free, configFile_ne_empty hnonempty, h.fits⟩, fun h => ⟨h.2.2, h.1⟩⟩

theorem configFile_absolute (hnamed : IsNamed here) :
    configFile (absolute here) = absolute (configEntry here) :=
  Path.join_absolute (FileTree.isNamed_concat.2 ⟨hnamed, FileTree.isEntryName_fileName⟩)

theorem utf8ByteSize_configFile (hnamed : IsNamed here) :
    (configFile (absolute here)).text.utf8ByteSize =
      (if here = [] then 0 else (absolute here).text.utf8ByteSize) + 11 := by
  rw [configFile_absolute hnamed, configEntry, Path.utf8ByteSize_absolute_concat
    (FileTree.isNamed_concat.2 ⟨hnamed, FileTree.isEntryName_fileName⟩), Nat.add_assoc]
  congr 1

/-- A configuration file one directory farther up has a shorter path. -/
theorem CanBeOpened.of_concat {name : String} (hnamed : IsNamed (here ++ [name]))
    (h : CanBeOpened (here ++ [name])) : CanBeOpened here := by
  obtain ⟨hhere, hname⟩ := FileTree.isNamed_concat.1 hnamed
  have hfits := h.fits
  rw [utf8ByteSize_configFile hnamed, if_neg (by simp), Path.utf8ByteSize_absolute_concat hnamed]
    at hfits
  refine ⟨?_, fun hmem => h.nul_free ?_⟩
  · rw [utf8ByteSize_configFile hhere]
    omega
  · rw [← Path.join_absolute hnamed]
    exact Path.mem_join_of_mem (Path.absolute_ne_empty here)
      (FileSystem.isAbsolute_of_isEntryName hname) hmem

/-- Where the file of the working directory can be opened, so can all those above it. -/
theorem CanBeOpened.of_isAbove {there : Location} (hnamed : IsNamed there) (h : CanBeOpened there)
    (habove : here <+: there) : CanBeOpened here := by
  obtain ⟨rest, rfl⟩ := habove
  induction rest using List.reverseRecOn with
  | nil => rwa [List.append_nil] at h
  | append_singleton rest name ih =>
    rw [← List.append_assoc] at hnamed h
    exact ih (FileTree.isNamed_concat.1 hnamed).1 (h.of_concat hnamed)

/-- What is wrong with such a path is never that nothing is there. -/
theorem locate_of_not_canBeOpened (fs : FileSystem) (hopen : ¬ CanBeOpened here) :
    ∃ e, e ≠ .notFound ∧ fs.locate (configFile (absolute here)) = .error e := by
  obtain ⟨e, hfault⟩ := Option.ne_none_iff_exists'.1 (mt canBeOpened_iff.2 hopen)
  refine ⟨e, ?_, FileSystem.locate_of_fault? hfault⟩
  rintro rfl
  exact fault?_configFile_ne_notFound (Path.absolute_ne_empty here) hfault

theorem isVacant_iff : IsVacant fs here ↔ FileTree.reached? (fs.tree.at? here) = none :=
  FileTree.reached?_eq_none_iff.symm

section Above

variable (h : fs.StandsInTree) (habove : here <+: fs.cwd.location)
include h habove

/-- The way to a configuration file ends before it only if nothing is reached there. -/
theorem locate_configFile_absolute (hopen : CanBeOpened here) :
    fs.locate (configFile (absolute here)) =
      if (FileTree.reached? (fs.tree.at? (configEntry here))).isSome then
        .ok { location := configEntry here }
      else .error .notFound := by
  obtain ⟨entries, hat⟩ := h.exists_directory habove
  have hnonempty := Path.absolute_ne_empty here
  have hfault := FileSystem.fault?_of_join hnonempty isAbsolute_fileName (canBeOpened_iff.1 hopen)
  have hhere := FileSystem.locate_absolute (h.isNamed habove) hat hfault
  rw [locate_configFile hnonempty (Nat.not_lt.2 hopen.fits), hhere]
  change fs.step { location := here } Config.fileName.text = _
  have hshort : ¬ FileSystem.nameLimit < Config.fileName.text.utf8ByteSize := by decide
  rw [FileSystem.step_of_isEntryName FileTree.isEntryName_fileName hat, configEntry,
    FileTree.at?_concat hat, if_neg hshort]

theorem find?_configFile (hopen : CanBeOpened here) :
    fs.find? (configFile (absolute here)) = FileTree.reached? (fs.tree.at? (configEntry here)) := by
  rw [FileSystem.find?, locate_configFile_absolute h habove hopen]
  cases hat : FileTree.reached? (fs.tree.at? (configEntry here)) with
  | none => rfl
  | some tree => exact hat

theorem isFile_configFile_iff : fs.isFile (configFile (absolute here)) = true ↔
    CanBeOpened here ∧ ∃ content, HoldsConfig fs here content := by
  by_cases hopen : CanBeOpened here
  · rw [FileSystem.isFile, find?_configFile h habove hopen, and_iff_right hopen]
    constructor
    · intro hfile
      split at hfile
      · rename_i content hat
        exact ⟨content, (FileTree.reached?_eq_some_iff.1 hat).1⟩
      · cases hfile
    · rintro ⟨content, hholds⟩
      rw [hholds]
      rfl
  · obtain ⟨e, -, hlocate⟩ := locate_of_not_canBeOpened fs hopen
    rw [FileSystem.isFile, FileSystem.find?, hlocate]
    exact iff_of_false Bool.false_ne_true fun hboth => hopen hboth.1

theorem load_of_holdsConfig (hopen : CanBeOpened here) (hholds : HoldsConfig fs here content) :
    Config.load fs (absolute here) = configOf content := by
  have hlocate := locate_configFile_absolute h habove hopen
  rw [hholds] at hlocate
  have hat : fs.at? { location := configEntry here } = some (.file content) := by
    rw [FileSystem.at?, if_pos rfl, hholds]
    rfl
  rw [Config.load, ← configFile, FileSystem.readText, hlocate]
  simp only [FileTree.reached?, Option.isSome_some, if_true, hat, configOf]
  cases Text.Utf8.text? content <;> rfl

/-- What is loaded from a directory without a configuration file that can be opened. -/
theorem loadOrDefault_of_not_holdsConfig
    (hnone : ∀ content, HoldsConfig fs here content → ¬ CanBeOpened here) (c : Config) :
    Config.loadOrDefault fs (absolute here) = .ok c ↔
      c = {} ∧ IsVacant fs (configEntry here) ∧ CanBeOpened here := by
  by_cases hopen : CanBeOpened here
  · have hlocate := locate_configFile_absolute h habove hopen
    rw [isVacant_iff, and_iff_left hopen]
    cases hat : FileTree.reached? (fs.tree.at? (configEntry here)) with
    | none =>
      rw [hat, Option.isSome_none, if_neg Bool.false_ne_true] at hlocate
      rw [Config.loadOrDefault, load_of_locate hlocate]
      simp [eq_comm]
    | some tree =>
      rw [hat, Option.isSome_some, if_pos rfl] at hlocate
      obtain ⟨hentry, hleads⟩ := FileTree.reached?_eq_some_iff.1 hat
      cases tree with
      | file content => exact absurd hopen (hnone content hentry)
      | danglingLink => exact absurd rfl hleads
      | directory entries =>
        have hplace : fs.at? { location := configEntry here } = some (.directory entries) := hat
        have hload : Config.load fs (absolute here) = .error (.unreadable .isADirectory) := by
          rw [Config.load, ← configFile, FileSystem.readText, hlocate]
          simp only [hplace]
        rw [loadOrDefault_of_error (by decide) hload]
        simp
  · obtain ⟨e, he, hlocate⟩ := locate_of_not_canBeOpened fs hopen
    have hne : ConfigError.unreadable e ≠ .unreadable .notFound :=
      fun heq => he (ConfigError.unreadable.inj heq)
    rw [loadOrDefault_of_error hne (load_of_locate hlocate)]
    simp [hopen]

end Above

end Project

end LintReport
