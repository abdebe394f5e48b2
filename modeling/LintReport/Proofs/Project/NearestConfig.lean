import LintReport.Proofs.Project.ConfigFile

/-! The configuration that governs a run for which none is named. From the working directory
upwards, the first directory whose `sieve.toml` is a file is the project, and what that file holds,
good or bad, is the configuration: neither the defaults nor a file farther up stand in for it. Only
where no directory has such a file is the working directory the project, and the defaults hold there
if nothing is in the file's place.

What a file system cannot open is as good as not there: a file whose path is too long is passed over
for one farther up, and a link that leads nowhere is no obstacle to the defaults. -/

namespace LintReport

open FileSystem (absolute)
open FileTree (IsNamed)

/-- The longest locations come first among those that lead to a location. -/
theorem find?_reverse_inits_eq_some_iff {α : Type} {holds : List α → Bool} {start here : List α} :
    start.inits.reverse.find? holds = some here ↔
      here <+: start ∧ holds here = true ∧
        ∀ nearer, nearer <+: start → here.length < nearer.length → holds nearer = false := by
  induction start using List.reverseRecOn with
  | nil =>
    have hinits : ([] : List α).inits.reverse = [[]] := rfl
    rw [hinits, List.find?_singleton, List.prefix_nil]
    grind
  | append_singleton start name ih =>
    have hinits : (start ++ [name]).inits.reverse = (start ++ [name]) :: start.inits.reverse := by
      simp [List.inits_append]
    rw [hinits, List.find?_cons]
    cases hholds : holds (start ++ [name]) with
    | true =>
      simp only [Option.some.injEq]
      constructor
      · rintro rfl
        exact ⟨List.prefix_rfl, hholds, fun nearer hleads hlonger =>
          absurd hleads.length_le (Nat.not_le.2 hlonger)⟩
      · rintro ⟨hleads, -, hnone⟩
        rcases List.prefix_concat_iff.1 hleads with rfl | hleads
        · rfl
        · have hlonger : here.length < (start ++ [name]).length := by
            rw [List.length_append]
            exact Nat.lt_succ_of_le hleads.length_le
          rw [hnone _ List.prefix_rfl hlonger] at hholds
          cases hholds
    | false =>
      simp only [ih]
      constructor
      · rintro ⟨hleads, hhere, hnone⟩
        refine ⟨hleads.trans (List.prefix_append _ _), hhere, fun nearer hnearer hlonger => ?_⟩
        rcases List.prefix_concat_iff.1 hnearer with rfl | hnearer
        · exact hholds
        · exact hnone nearer hnearer hlonger
      · rintro ⟨hleads, hhere, hnone⟩
        rcases List.prefix_concat_iff.1 hleads with rfl | hleads
        · rw [hholds] at hhere
          cases hhere
        · exact ⟨hleads, hhere, fun nearer hnearer hlonger =>
            hnone nearer (hnearer.trans (List.prefix_append _ _)) hlonger⟩

namespace Project

variable {fs : FileSystem} {here : Location} {content : Bytes}

/-- Of the working directory and those above it, this is the nearest with a configuration file that
can be opened. -/
structure IsNearest (fs : FileSystem) (here : Location) (content : Bytes) : Prop where
  isAbove : here <+: fs.cwd.location
  holds : HoldsConfig fs here content
  canBeOpened : CanBeOpened here
  noneNearer : ∀ nearer content', nearer <+: fs.cwd.location → here.length < nearer.length →
    HoldsConfig fs nearer content' → ¬ CanBeOpened nearer

/-- Neither the working directory nor any above it has a configuration file that can be opened. -/
def NoneHolds (fs : FileSystem) : Prop :=
  ∀ here content, here <+: fs.cwd.location → HoldsConfig fs here content → ¬ CanBeOpened here

/-! ### Searching -/

/-- The nearest location, from the working directory upwards, at which a configuration file is
found. -/
def nearest? (fs : FileSystem) : Option Location :=
  fs.cwd.location.inits.reverse.find? fun here => fs.isFile (configFile (absolute here))

theorem findRoot?_cwd (h : fs.StandsInTree) :
    findRoot? fs (absolute fs.cwd.location) = (nearest? fs).map absolute := by
  rw [findRoot?, Path.ancestors_absolute (h.isNamed List.prefix_rfl), List.find?_map]
  rfl

theorem nearest?_eq_some_iff (h : fs.StandsInTree) :
    nearest? fs = some here ↔ ∃ content, IsNearest fs here content := by
  rw [nearest?, find?_reverse_inits_eq_some_iff]
  constructor
  · rintro ⟨habove, hfile, hnone⟩
    obtain ⟨hopen, content, hholds⟩ := (isFile_configFile_iff h habove).1 hfile
    refine ⟨content, habove, hholds, hopen, fun nearer content' hnearer hlonger hholds' hopen' => ?_⟩
    have hfile' := (isFile_configFile_iff h hnearer).2 ⟨hopen', content', hholds'⟩
    rw [hnone nearer hnearer hlonger] at hfile'
    cases hfile'
  · rintro ⟨content, habove, hholds, hopen, hnone⟩
    refine ⟨habove, (isFile_configFile_iff h habove).2 ⟨hopen, content, hholds⟩,
      fun nearer hnearer hlonger => ?_⟩
    rw [← Bool.not_eq_true, isFile_configFile_iff h hnearer]
    rintro ⟨hopen', content', hholds'⟩
    exact hnone nearer content' hnearer hlonger hholds' hopen'

theorem nearest?_eq_none_iff (h : fs.StandsInTree) : nearest? fs = none ↔ NoneHolds fs := by
  rw [nearest?, List.find?_eq_none]
  constructor
  · intro hnone here content habove hholds hopen
    have hmem : here ∈ fs.cwd.location.inits.reverse := by simpa using habove
    exact hnone here hmem ((isFile_configFile_iff h habove).2 ⟨hopen, content, hholds⟩)
  · intro hnone here hmem hfile
    have habove : here <+: fs.cwd.location := by simpa using hmem
    obtain ⟨hopen, content, hholds⟩ := (isFile_configFile_iff h habove).1 hfile
    exact hnone here content habove hholds hopen

theorem root_eq_nearest? (h : fs.StandsInTree) :
    root fs none = .ok (absolute ((nearest? fs).getD fs.cwd.location)) := by
  rw [root_of_unnamed h.cwdPath? (findRoot?_cwd h)]
  cases nearest? fs <;> rfl

theorem loadConfig_unnamed (fs : FileSystem) (directory : Path) : loadConfig fs none directory =
    (Config.loadOrDefault fs directory).mapError .config := rfl

/-- The project, and what is loaded for it, where a configuration file governs. -/
theorem root_of_isNearest (h : fs.StandsInTree) (hnearest : IsNearest fs here content) :
    root fs none = .ok (absolute here) := by
  rw [root_eq_nearest? h, (nearest?_eq_some_iff h).2 ⟨content, hnearest⟩]
  rfl

theorem loadConfig_of_isNearest (h : fs.StandsInTree) (hnearest : IsNearest fs here content) :
    loadConfig fs none (absolute here) = (configOf content).mapError .config := by
  have hfile := load_of_holdsConfig h hnearest.isAbove hnearest.canBeOpened hnearest.holds
  rw [loadConfig_unnamed, loadOrDefault_eq_load (hfile ▸ configOf_ne_notFound content), hfile]

/-- The same where none governs. -/
theorem root_of_noneHolds (h : fs.StandsInTree) (hnone : NoneHolds fs) :
    root fs none = .ok (absolute fs.cwd.location) := by
  rw [root_eq_nearest? h, (nearest?_eq_none_iff h).2 hnone]
  rfl

theorem loadConfig_of_noneHolds (h : fs.StandsInTree) (hnone : NoneHolds fs) (c : Config) :
    loadConfig fs none (absolute fs.cwd.location) = .ok c ↔
      c = {} ∧ IsVacant fs (configEntry fs.cwd.location) ∧ CanBeOpened fs.cwd.location := by
  rw [← loadOrDefault_of_not_holdsConfig h List.prefix_rfl
    (fun content => hnone _ content List.prefix_rfl), loadConfig_unnamed]
  cases Config.loadOrDefault fs (absolute fs.cwd.location) <;> simp [Except.mapError]

/-- Settings that can be read, and a text that is no TOML. -/
def soundContent : Bytes := Text.Utf8.encode "lint.tests = false".toList

def brokenContent : Bytes := Text.Utf8.encode "lint = [".toList

theorem configOf_soundContent : configOf soundContent = .ok { lint := { tests := false } } := rfl

/-- A project whose configuration is no TOML, between a sound one above it and a directory of the
same name below. -/
def brokenBetween : FileSystem where
  tree := .directory [
    ("sieve.toml", .file soundContent),
    ("project", .directory [
      ("sieve.toml", .file brokenContent),
      ("pkg", .directory [("sieve.toml", .directory [])])])]
  cwd := { location := ["project", "pkg"] }

/-- A project with this where its configuration should be, and no configuration above. -/
def inPlace (entry : FileTree) : FileSystem where
  tree := .directory [("project", .directory [("sieve.toml", entry)])]
  cwd := { location := ["project"] }

theorem standsInTree_inPlace (entry : FileTree) (h : entry.wellNamed = true) :
    (inPlace entry).StandsInTree := by
  refine ⟨?_, rfl, ⟨[("sieve.toml", entry)], rfl⟩⟩
  simp only [inPlace, FileTree.wellNamed, FileTree.wellNamedEntries, h]
  decide

theorem not_holdsConfig_inPlace {entry : FileTree} (h : ∀ content, entry ≠ .file content)
    (habove : here <+: ["project"]) : ¬ HoldsConfig (inPlace entry) here content := by
  intro hholds
  rcases List.prefix_cons_iff.1 habove with rfl | ⟨rest, rfl, hrest⟩
  · cases hholds
  · obtain rfl := List.prefix_nil.1 hrest
    exact h content (Option.some.inj hholds)

/-- Directories of one name, each in the one before it, and a tree in the innermost of them. -/
def nest (name : String) (tree : FileTree) : Nat → FileTree
  | 0 => tree
  | depth + 1 => .directory [(name, nest name tree depth)]

section Nest

variable {name other : String} {tree : FileTree}

theorem at?_nest (name : String) (tree : FileTree) (there : Location) (depth : Nat) :
    (nest name tree depth).at? (List.replicate depth name ++ there) = tree.at? there := by
  induction depth with
  | zero => rfl
  | succ depth ih =>
    rw [nest, List.replicate_succ, List.cons_append, FileTree.at?, List.lookup_cons_self]
    exact ih

/-- Above the innermost directory there is nothing but the way to it. -/
theorem at?_nest_of_lt (hother : other ≠ name) {above depth : Nat} (h : above < depth) :
    (nest name tree depth).at? (List.replicate above name ++ [other]) = none := by
  induction above generalizing depth with
  | zero =>
    obtain ⟨depth, rfl⟩ := Nat.exists_eq_succ_of_ne_zero (Nat.ne_of_gt h)
    have hmissing : [(name, nest name tree depth)].lookup other = none := by
      rw [List.lookup_cons, beq_eq_false_iff_ne.2 hother]
      rfl
    rw [nest, List.replicate_zero, List.nil_append, FileTree.at?, hmissing]
  | succ above ih =>
    obtain ⟨depth, rfl⟩ := Nat.exists_eq_succ_of_ne_zero (Nat.ne_of_gt (Nat.zero_lt_of_lt h))
    rw [nest, List.replicate_succ, List.cons_append, FileTree.at?, List.lookup_cons_self]
    exact ih (Nat.lt_of_succ_lt_succ h)

theorem wellNamed_nest (hname : FileTree.isEntryName name = true)
    (htree : tree.wellNamed = true) (depth : Nat) : (nest name tree depth).wellNamed = true := by
  induction depth with
  | zero => exact htree
  | succ depth ih => simp [nest, FileTree.wellNamed, FileTree.wellNamedEntries, hname, ih]

theorem isNamed_replicate (hname : FileTree.isEntryName name = true) (depth : Nat) :
    IsNamed (List.replicate depth name) :=
  fun _ hmem => List.eq_of_mem_replicate hmem ▸ hname

theorem utf8ByteSize_absolute_replicate (hname : FileTree.isEntryName name = true) (depth : Nat) :
    (absolute (List.replicate (depth + 1) name)).text.utf8ByteSize =
      (depth + 1) * (name.utf8ByteSize + 1) := by
  induction depth with
  | zero =>
    have hnamed : IsNamed ([] ++ [name]) := isNamed_replicate hname 1
    rw [List.replicate_succ, List.replicate_zero, ← List.nil_append [name],
      Path.utf8ByteSize_absolute_concat hnamed, if_pos rfl]
    omega
  | succ depth ih =>
    have hnamed := isNamed_replicate hname (depth + 1 + 1)
    rw [List.replicate_succ'] at hnamed ⊢
    rw [Path.utf8ByteSize_absolute_concat hnamed, if_neg (by simp), ih, Nat.succ_mul (depth + 1)]
    omega

end Nest

/-- A directory with nothing but a broken configuration. -/
def brokenDirectory : FileTree := .directory [("sieve.toml", .file brokenContent)]

/-- Such a directory at the end of a chain of directories, and a sound configuration at its root. -/
def brokenBelow (depth : Nat) : FileSystem where
  tree := .directory [
    ("sieve.toml", .file soundContent),
    ("directory", nest "directory" brokenDirectory depth)]
  cwd := { location := List.replicate (depth + 1) "directory" }

section BrokenBelow

variable {depth : Nat}

theorem isEntryName_directory : FileTree.isEntryName "directory" = true := by decide

theorem at?_brokenBelow (there : Location) : (brokenBelow depth).tree.at? ("directory" :: there) =
    (nest "directory" brokenDirectory depth).at? there := rfl

theorem standsInTree_brokenBelow (depth : Nat) : (brokenBelow depth).StandsInTree := by
  refine ⟨?_, rfl, ⟨[("sieve.toml", .file brokenContent)], ?_⟩⟩
  · have hbroken : brokenDirectory.wellNamed = true := by decide
    simp only [brokenBelow, FileTree.wellNamed, FileTree.wellNamedEntries, isEntryName_directory,
      wellNamed_nest isEntryName_directory hbroken]
    decide
  · have hinner := at?_nest "directory" brokenDirectory [] depth
    rw [List.append_nil] at hinner
    exact hinner

theorem holdsConfig_brokenBelow (depth : Nat) :
    HoldsConfig (brokenBelow depth) (List.replicate (depth + 1) "directory") brokenContent :=
  at?_nest "directory" brokenDirectory ["sieve.toml"] depth

/-- A path of 409 names of nine bytes takes 4090 bytes. -/
theorem not_canBeOpened_replicate (h : 408 ≤ depth) :
    ¬ CanBeOpened (List.replicate (depth + 1) "directory") := by
  intro hopen
  have hlimit : FileSystem.pathLimit = 4095 := rfl
  have hsize : "directory".utf8ByteSize = 9 := by decide
  have hfits := hopen.fits
  rw [utf8ByteSize_configFile (isNamed_replicate isEntryName_directory _), if_neg (by simp),
    utf8ByteSize_absolute_replicate isEntryName_directory, hsize, hlimit] at hfits
  omega

/-- So far down, the broken configuration cannot be opened, and the one at the root is the nearest. -/
theorem isNearest_brokenBelow (h : 408 ≤ depth) : IsNearest (brokenBelow depth) [] soundContent := by
  refine ⟨List.nil_prefix, rfl, canBeOpened_iff.2 (by decide), ?_⟩
  intro nearer content habove hlonger hholds
  obtain ⟨hlength, hnearer⟩ := List.prefix_replicate_iff.1 habove
  obtain ⟨above, habove⟩ := Nat.exists_eq_succ_of_ne_zero (Nat.ne_of_gt hlonger)
  rw [habove] at hlength hnearer
  by_cases hinner : above < depth
  · have hnone : (brokenBelow depth).tree.at? (configEntry nearer) = none := by
      rw [hnearer, configEntry, List.replicate_succ, List.cons_append, at?_brokenBelow]
      exact at?_nest_of_lt (by decide) hinner
    rw [HoldsConfig, hnone] at hholds
    cases hholds
  · obtain rfl : above = depth := by omega
    rw [hnearer]
    exact not_canBeOpened_replicate h

end BrokenBelow

/-- A working directory that has been removed, and a configuration in the directory above it. -/
def removedBelow : FileSystem where
  tree := .directory [("sieve.toml", .file soundContent)]
  cwd := { location := ["project"], removed := 1 }

end Project

end LintReport
