import Mathlib.Data.List.Forall2
import LintReport.Proofs.Dict
import LintReport.Proofs.Planning
import LintReport.Proofs.Project.Packages

/-! The search path of mypy. The source roots among the paths are looked for twice: once to give
mypy their packages in their place, and once to join them to its search path. A directory with the
separator in its name cannot be joined to others, and then none is: mypy is given the packages of
all the roots, and no search path. -/

namespace LintReport

open FileSystem (fault?_eq_none fault?_of_locate)

namespace Project

variable {fs : FileSystem}

/-- The visible subdirectories of a directory, in the order of their names. -/
def ListsPackages (fs : FileSystem) (directory : Path) (listed : List Path) : Prop :=
  ∃ names : List String,
    names.Perm ((fs.names directory).filter fun name =>
      isVisible name && fs.isDirectory (directory.join ⟨name⟩)) ∧
    names.Pairwise (· ≤ ·) ∧ listed = names.map fun name => directory.join ⟨name⟩

theorem listsPackages_packages (fs : FileSystem) (directory : Path) :
    ListsPackages fs directory (packages fs directory) := by
  refine ⟨_, List.mergeSort_perm _ _, ?_, rfl⟩
  refine (List.pairwise_mergeSort ?_ ?_ _).imp of_decide_eq_true
  · intro a b c hab hbc
    exact decide_eq_true (String.le_trans (of_decide_eq_true hab) (of_decide_eq_true hbc))
  · intro a b
    rw [Bool.or_eq_true, decide_eq_true_eq, decide_eq_true_eq]
    exact String.le_total a b

theorem text_ne_empty_of_isSourceRoot {p : Path} (h : isSourceRoot fs p = true) : p.text ≠ "" := by
  simp only [isSourceRoot, Bool.and_eq_true] at h
  obtain ⟨entries, hfind⟩ := FileSystem.exists_of_isDirectory h.1.1
  obtain ⟨place, hlocate, -⟩ := FileSystem.exists_locate_of_find? hfind
  exact (fault?_eq_none.1 (fault?_of_locate hlocate)).2.1

end Project

namespace Invocation

variable {fs : FileSystem} {config : Config} {paths : List Path} {ci : Bool}

/-- What stands among the arguments in the place of a path: for a source root its packages, else
the path. -/
def Replaces (fs : FileSystem) (p : Path) (arguments : List Path) : Prop :=
  if Project.isSourceRoot fs p then Project.ListsPackages fs p arguments else arguments = [p]

theorem replaces_argumentsFor (fs : FileSystem) (p : Path) :
    Replaces fs p (argumentsFor fs "mypy" p) := by
  unfold Replaces argumentsFor
  by_cases h : Project.isSourceRoot fs p = true
  · rw [if_pos h, if_pos ⟨rfl, h⟩]
    exact Project.listsPackages_packages fs p
  · rw [if_neg h, if_neg fun hboth => h hboth.2]

/-- A directory that can stand in a search path between the separators. -/
def IsListable (p : Path) : Prop := ':' ∉ p.text.toList

instance : DecidablePred IsListable := fun p => inferInstanceAs (Decidable (':' ∉ p.text.toList))

/-- The source roots among the paths, in their order. -/
def roots (fs : FileSystem) (paths : List Path) : List Path :=
  paths.filter (Project.isSourceRoot fs)

/-- The entries of a search path that consists of these directories. Without directories there is
no search path. -/
def entriesOf (directories : List Path) : Option (List (List Char)) :=
  if directories = [] then none else some (directories.map fun p => p.text.toList)

/-- The entries of the search path that a call sets for mypy; `none` if it sets none. -/
def searchEntries? (call : Invocation) : Option (List (List Char)) :=
  (call.env.find? "MYPYPATH").map fun joined => joined.toList.splitOn ':'

/-- The search path consists of the source roots that can be listed. -/
def CoversRoots (fs : FileSystem) (paths : List Path) (call : Invocation) : Prop :=
  call.searchEntries? = entriesOf ((roots fs paths).filter fun p => IsListable p)

instance (call : Invocation) : Decidable (CoversRoots fs paths call) :=
  inferInstanceAs (Decidable (_ = _))

theorem searchPath?_eq_none_iff {directories : List Path} :
    searchPath? directories = none ↔ ∃ p ∈ directories, ¬ IsListable p := by
  simp [searchPath?, IsListable]

/-- A search path that is joined from source roots is empty only if there are none. -/
theorem roots_eq_nil_of_searchPath? (h : searchPath? (roots fs paths) = some "") :
    roots fs paths = [] := by
  refine Classical.byContradiction fun hne => ?_
  obtain ⟨p, hp⟩ := List.exists_mem_of_ne_nil _ hne
  have hentry : p.text.toList ∈ (roots fs paths).map fun p => p.text.toList :=
    List.mem_map_of_mem hp
  rw [← splitOn_searchPath? hne h, String.toList_empty, List.splitOn_nil,
    List.mem_singleton] at hentry
  exact Project.text_ne_empty_of_isSourceRoot (List.mem_filter.1 hp).2
    (String.toList_eq_nil_iff.1 hentry)

theorem moduleSearchPath?_eq_none_iff : moduleSearchPath? fs paths = none ↔
    roots fs paths = [] ∨ ∃ p ∈ roots fs paths, ¬ IsListable p := by
  rw [← searchPath?_eq_none_iff, moduleSearchPath?, ← roots]
  split
  · rename_i joined h
    have hempty : joined = "" ↔ roots fs paths = [] := by
      constructor
      · rintro rfl
        exact roots_eq_nil_of_searchPath? h
      · intro hnil
        rw [hnil] at h
        cases h
        rfl
    simp [h, hempty]
  · rename_i h
    simp [h]

theorem find?_build_env (h : ((config.tool? "mypy").getD {}).env.find? "MYPYPATH" = none) :
    (build fs config paths ci "mypy").env.find? "MYPYPATH" = moduleSearchPath? fs paths := by
  unfold build
  rw [Dict.find?_overlay_of_none _ h, if_pos rfl]
  cases moduleSearchPath? fs paths with
  | none => rfl
  | some joined => rw [Dict.find?_insert, if_pos rfl]

section Build
variable (h : ((config.tool? "mypy").getD {}).env.find? "MYPYPATH" = none)
include h

theorem searchEntries?_build_of_listable (hall : ∀ p ∈ roots fs paths, IsListable p) :
    (build fs config paths ci "mypy").searchEntries? = entriesOf (roots fs paths) := by
  unfold searchEntries? entriesOf
  rw [find?_build_env h]
  cases hfound : moduleSearchPath? fs paths with
  | none =>
    rcases moduleSearchPath?_eq_none_iff.1 hfound with hnil | ⟨p, hp, hnot⟩
    · rw [if_pos hnil, Option.map_none]
    · exact absurd (hall p hp) hnot
  | some joined =>
    have hne : roots fs paths ≠ [] := by
      intro hnil
      rw [moduleSearchPath?_eq_none_iff.2 (.inl hnil)] at hfound
      cases hfound
    rw [if_neg hne, Option.map_some, splitOn_moduleSearchPath? hfound]
    rfl

/-- A single root that cannot be listed leaves mypy without a search path. -/
theorem searchEntries?_build_of_not_listable {p : Path} (hp : p ∈ roots fs paths)
    (hnot : ¬ IsListable p) : (build fs config paths ci "mypy").searchEntries? = none := by
  rw [searchEntries?, find?_build_env h, moduleSearchPath?_eq_none_iff.2 (.inr ⟨p, hp, hnot⟩),
    Option.map_none]

theorem coversRoots_build_iff : CoversRoots fs paths (build fs config paths ci "mypy") ↔
    (∀ p ∈ roots fs paths, IsListable p) ∨ ∀ p ∈ roots fs paths, ¬ IsListable p := by
  unfold CoversRoots
  by_cases hall : ∀ p ∈ roots fs paths, IsListable p
  · have hself : ((roots fs paths).filter fun p => IsListable p) = roots fs paths :=
      List.filter_eq_self.2 fun p hp => decide_eq_true (hall p hp)
    rw [hself]
    exact iff_of_true (searchEntries?_build_of_listable h hall) (.inl hall)
  · have hsome : ∃ p ∈ roots fs paths, ¬ IsListable p := by simpa using hall
    obtain ⟨p, hp, hnot⟩ := hsome
    have hnil : entriesOf ((roots fs paths).filter fun p => IsListable p) = none ↔
        ∀ p ∈ roots fs paths, ¬ IsListable p := by
      simp [entriesOf]
    rw [searchEntries?_build_of_not_listable h hp hnot, or_iff_right hall, eq_comm, hnil]

end Build

theorem paths_build_mypy (fs : FileSystem) (config : Config) (paths : List Path) (ci : Bool) :
    ∃ groups, List.Forall₂ (Replaces fs) paths groups ∧
      (build fs config paths ci "mypy").paths = groups.flatten := by
  refine ⟨paths.map (argumentsFor fs "mypy"), ?_, ?_⟩
  · rw [List.forall₂_map_right_iff, List.forall₂_same]
    exact fun p _ => replaces_argumentsFor fs p
  · rw [paths_build, List.flatMap_def]

/-- Mypy is given the packages of each source root in its place, and every other path as it is.
Unless the configuration sets the search path, it consists of the source roots when all of them can
be listed, and is not set when one cannot; so it has those that can be listed, and only those, if
either all can or none. -/
theorem mypy_packages_and_search_path (fs : FileSystem) (config : Config) (paths : List Path)
    (ci : Bool) (h : ((config.tool? "mypy").getD {}).env.find? "MYPYPATH" = none) :
    (∃ groups, List.Forall₂ (Replaces fs) paths groups ∧
      (build fs config paths ci "mypy").paths = groups.flatten) ∧
    ((∀ p ∈ roots fs paths, IsListable p) →
      (build fs config paths ci "mypy").searchEntries? = entriesOf (roots fs paths)) ∧
    ((∃ p ∈ roots fs paths, ¬ IsListable p) →
      (build fs config paths ci "mypy").searchEntries? = none) ∧
    (CoversRoots fs paths (build fs config paths ci "mypy") ↔
      (∀ p ∈ roots fs paths, IsListable p) ∨ ∀ p ∈ roots fs paths, ¬ IsListable p) := by
  refine ⟨paths_build_mypy fs config paths ci, searchEntries?_build_of_listable h, ?_,
    coversRoots_build_iff h⟩
  rintro ⟨p, hp, hnot⟩
  exact searchEntries?_build_of_not_listable h hp hnot

/-- Two source roots, and between them a directory that is itself a package. -/
def twoRoots : World := .ofEntries [
  ("src", .directory [("setup.py", .file []), ("app", .directory [])]),
  ("tests", .directory [("__init__.py", .file []), ("unit", .directory [])]),
  ("lib", .directory [("base", .directory []), (".cache", .directory [])])]

theorem coversRoots_twoRoots :
    ((({} : Config).tool? "mypy").getD {}).env.find? "MYPYPATH" = none ∧
      (build twoRoots.files {} [⟨"src"⟩, ⟨"tests"⟩, ⟨"lib"⟩] false "mypy").paths =
        [⟨"src/app"⟩, ⟨"tests"⟩, ⟨"lib/base"⟩] ∧
      (build twoRoots.files {} [⟨"src"⟩, ⟨"tests"⟩, ⟨"lib"⟩] false "mypy").env.find? "MYPYPATH" =
        some "src:lib" ∧
      CoversRoots twoRoots.files [⟨"src"⟩, ⟨"tests"⟩, ⟨"lib"⟩]
        (build twoRoots.files {} [⟨"src"⟩, ⟨"tests"⟩, ⟨"lib"⟩] false "mypy") := by
  refine ⟨rfl, by decide +kernel, by decide +kernel, ?_⟩
  exact (mypy_packages_and_search_path twoRoots.files {} [⟨"src"⟩, ⟨"tests"⟩, ⟨"lib"⟩] false
    rfl).2.2.2.2 (.inl (by decide +kernel))

/-- Two source roots, one with the separator in its name. -/
def colonRoot : World := .ofEntries [
  ("a:b", .directory [("pkg", .directory [("x.py", .file [])])]),
  ("c", .directory [("pkg", .directory [("y.py", .file [])])])]

/-- Both roots are given by their packages; but `a:b` cannot be listed, and `c` is not. -/
theorem not_coversRoots_colonRoot :
    ((({} : Config).tool? "mypy").getD {}).env.find? "MYPYPATH" = none ∧
      roots colonRoot.files [⟨"a:b"⟩, ⟨"c"⟩] = [⟨"a:b"⟩, ⟨"c"⟩] ∧
      (build colonRoot.files {} [⟨"a:b"⟩, ⟨"c"⟩] false "mypy").paths =
        [⟨"a:b/pkg"⟩, ⟨"c/pkg"⟩] ∧
      (build colonRoot.files {} [⟨"a:b"⟩, ⟨"c"⟩] false "mypy").env.find? "MYPYPATH" = none ∧
      ¬ CoversRoots colonRoot.files [⟨"a:b"⟩, ⟨"c"⟩]
        (build colonRoot.files {} [⟨"a:b"⟩, ⟨"c"⟩] false "mypy") := by
  refine ⟨rfl, ?_, ?_, ?_, ?_⟩ <;> decide +kernel

end Invocation

end LintReport
