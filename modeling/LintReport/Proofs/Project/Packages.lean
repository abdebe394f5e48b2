import LintReport.Invocation
import LintReport.Proofs.Paths

/-! Source roots and their packages. In a tree whose entries have proper names, a package that is
found below a source root is a directory one name below it; and what mypy is given for a path, and
as its search path, is made of these packages and roots. -/

namespace LintReport

namespace FileTree

/-- A name that can stand between the slashes of a path and lead to an entry. -/
def isEntryName (name : String) : Bool := name ∉ ["", ".", ".."] && '/' ∉ name.toList

theorem isEntryName_iff {name : String} : isEntryName name = true ↔
    name ≠ "" ∧ name ≠ "." ∧ name ≠ ".." ∧ '/' ∉ name.toList := by
  simp [isEntryName, and_assoc]

mutual

/-- The entries of all directories have proper names. -/
def wellNamed : FileTree → Bool
  | file _ | danglingLink => true
  | directory entries => wellNamedEntries entries

def wellNamedEntries : List (String × FileTree) → Bool
  | [] => true
  | (name, tree) :: rest => isEntryName name && tree.wellNamed && wellNamedEntries rest

end

theorem wellNamed_of_lookup {entries : List (String × FileTree)} {name : String} {tree : FileTree}
    (h : wellNamedEntries entries = true) (hlookup : entries.lookup name = some tree) :
    tree.wellNamed = true := by
  induction entries with
  | nil => cases hlookup
  | cons entry rest ih =>
    obtain ⟨other, below⟩ := entry
    simp only [wellNamedEntries, Bool.and_eq_true] at h
    rw [List.lookup_cons] at hlookup
    split at hlookup
    · cases hlookup
      exact h.1.2
    · exact ih h.2 hlookup

theorem wellNamed_at? {tree below : FileTree} {location : Location} (h : tree.wellNamed = true)
    (hat : tree.at? location = some below) : below.wellNamed = true := by
  induction location generalizing tree with
  | nil =>
    rw [at?, Option.some.injEq] at hat
    rwa [← hat]
  | cons name location ih =>
    cases tree with
    | file content => cases hat
    | danglingLink => cases hat
    | directory entries =>
      rw [at?] at hat
      split at hat
      · rename_i next hlookup
        exact ih (wellNamed_of_lookup h hlookup) hat
      · cases hat

theorem isEntryName_of_mem {entries : List (String × FileTree)} {name : String}
    (h : wellNamedEntries entries = true) (hname : name ∈ entries.map (·.1)) :
    isEntryName name = true := by
  induction entries with
  | nil => cases hname
  | cons entry rest ih =>
    obtain ⟨other, below⟩ := entry
    simp only [wellNamedEntries, Bool.and_eq_true] at h
    rcases List.mem_cons.1 hname with rfl | hrest
    · exact h.1.1
    · exact ih h.2 hrest

end FileTree

namespace FileSystem

variable {fs : FileSystem} {here : Place} {p : Path} {name : String}

section EntryName
variable (hname : FileTree.isEntryName name = true)
include hname

theorem steps_of_isEntryName : Path.steps ⟨name⟩ = [name] := by
  obtain ⟨-, -, -, hslash⟩ := FileTree.isEntryName_iff.1 hname
  have hfree : ∀ c ∈ name.toList, decide (c = '/') = false := by
    intro c hc
    exact decide_eq_false fun h => hslash (h ▸ hc)
  rw [Path.steps_eq, List.splitOnP_eq_singleton hfree, List.map_singleton, String.ofList_toList]

theorem isAbsolute_of_isEntryName : Path.isAbsolute ⟨name⟩ = false := by
  obtain ⟨-, -, -, hslash⟩ := FileTree.isEntryName_iff.1 hname
  rw [Path.isAbsolute, decide_eq_false_iff_not]
  intro h
  exact hslash (List.mem_of_mem_head? h)

theorem turn_of_isEntryName (location : Location) : turn location name = location ++ [name] := by
  obtain ⟨hempty, hdot, hdots, -⟩ := FileTree.isEntryName_iff.1 hname
  rw [turn, if_neg (not_or.2 ⟨hempty, hdot⟩), if_neg hdots]

theorem spelled_of_isEntryName (base : Location) : spelled base ⟨name⟩ = base ++ [name] := by
  rw [spelled_eq, steps_of_isEntryName hname, isAbsolute_of_isEntryName hname]
  exact turn_of_isEntryName hname base

/-- A step to an entry leads to what is there. -/
theorem removed_of_step {there : Place} (h : fs.step here name = .ok there) :
    there.removed = 0 := by
  obtain ⟨hempty, hdot, hdots, -⟩ := FileTree.isEntryName_iff.1 hname
  obtain ⟨hstay, -⟩ | ⟨hup, -⟩ | ⟨-, -, rfl⟩ := cases_of_step h
  · exact absurd hstay (not_or.2 ⟨hempty, hdot⟩)
  · exact absurd hup hdots
  · rfl

/-- The way to an entry is the way to its directory and one step. -/
theorem locate_join_name (hp : p.text ≠ "") (hfault : fault? (p.join ⟨name⟩) = none) :
    fs.locate (p.join ⟨name⟩) = fs.locate p >>= fun place => fs.step place name := by
  rw [locate_join hp (isAbsolute_of_isEntryName hname) hfault, steps_of_isEntryName hname]
  exact bind_congr fun place => bind_pure (fs.step place name)

end EntryName

theorem exists_locate_of_find? {tree : FileTree} (h : fs.find? p = some tree) :
    ∃ place, fs.locate p = .ok place ∧ fs.at? place = some tree := by
  unfold find? at h
  split at h
  · rename_i place hlocate
    exact ⟨place, hlocate, h⟩
  · cases h

theorem exists_of_isDirectory (h : fs.isDirectory p = true) :
    ∃ entries, fs.find? p = some (.directory entries) := by
  unfold isDirectory at h
  split at h
  · rename_i entries hfind
    exact ⟨entries, hfind⟩
  · cases h

theorem exists_of_mem_names (h : name ∈ fs.names p) :
    ∃ entries, fs.find? p = some (.directory entries) ∧ name ∈ entries.map (·.1) := by
  unfold names at h
  split at h
  · rename_i entries hfind
    exact ⟨entries, hfind, h⟩
  · cases h

/-- A removed directory is empty. -/
theorem at?_of_mem {entries : List (String × FileTree)}
    (h : fs.at? here = some (.directory entries)) (hname : name ∈ entries.map (·.1)) :
    fs.tree.at? here.location = some (.directory entries) := by
  unfold at? at h
  split at h
  · exact (FileTree.reached?_eq_some_iff.1 h).1
  · cases h
    cases hname

theorem isEntryName_of_mem_names (hwell : fs.tree.wellNamed = true) (h : name ∈ fs.names p) :
    FileTree.isEntryName name = true := by
  obtain ⟨entries, hfind, hname⟩ := exists_of_mem_names h
  obtain ⟨place, -, hat⟩ := exists_locate_of_find? hfind
  have hentries := FileTree.wellNamed_at? hwell (at?_of_mem hat hname)
  exact FileTree.isEntryName_of_mem hentries hname

/-- From a directory, a path with an entry's name leads one step further. -/
theorem step_of_locate_join {place there : Place} (hname : FileTree.isEntryName name = true)
    (h : fs.locate p = .ok place) (hthere : fs.locate (p.join ⟨name⟩) = .ok there) :
    fs.step place name = .ok there := by
  have hp : p.text ≠ "" := (fault?_eq_none.1 (fault?_of_locate h)).2.1
  rw [locate_join_name hname hp (fault?_of_locate hthere), h] at hthere
  exact hthere

/-- A directory that is found by the name of an entry is below the directory with that entry. -/
theorem at?_of_isDirectory_join (hwell : fs.tree.wellNamed = true) (hname : name ∈ fs.names p)
    (h : fs.isDirectory (p.join ⟨name⟩) = true) :
    ∃ entries, fs.tree.at? (spelled fs.cwd.location p ++ [name]) = some (.directory entries) := by
  have hentry := isEntryName_of_mem_names hwell hname
  obtain ⟨entries, hfind, -⟩ := exists_of_mem_names hname
  obtain ⟨place, hplace, -⟩ := exists_locate_of_find? hfind
  obtain ⟨below, hbelow⟩ := exists_of_isDirectory h
  obtain ⟨there, hthere, hatThere⟩ := exists_locate_of_find? hbelow
  have hremoved := removed_of_step hentry (step_of_locate_join hentry hplace hthere)
  rw [at?, if_pos hremoved, location_of_locate hthere, spelled_join,
    spelled_of_isEntryName hentry] at hatThere
  exact ⟨below, (FileTree.reached?_eq_some_iff.1 hatThere).1⟩

end FileSystem

namespace Project

open FileSystem

variable {fs : FileSystem} {directory a : Path}

theorem mem_packages (h : a ∈ packages fs directory) :
    ∃ name ∈ fs.names directory, fs.isDirectory (directory.join ⟨name⟩) = true ∧
      a = directory.join ⟨name⟩ := by
  obtain ⟨name, hname, rfl⟩ := List.mem_map.1 h
  rw [List.mem_mergeSort, List.mem_filter, Bool.and_eq_true] at hname
  exact ⟨name, hname.1, hname.2.2, rfl⟩

/-- A package stands, by its spelling, one name below its source root. -/
theorem spelled_of_mem_packages (hwell : fs.tree.wellNamed = true)
    (h : a ∈ packages fs directory) :
    ∃ name entries, (∀ base, spelled base a = spelled base directory ++ [name]) ∧
      fs.tree.at? (spelled fs.cwd.location directory ++ [name]) = some (.directory entries) := by
  obtain ⟨name, hname, hdirectory, rfl⟩ := mem_packages h
  obtain ⟨entries, hentries⟩ := at?_of_isDirectory_join hwell hname hdirectory
  refine ⟨name, entries, fun base => ?_, hentries⟩
  rw [spelled_join, spelled_of_isEntryName (isEntryName_of_mem_names hwell hname)]

end Project

namespace Invocation

variable {fs : FileSystem}

/-- What a tool is given for one of the paths to scan. -/
def argumentsFor (fs : FileSystem) (tool : String) (p : Path) : List Path :=
  if tool = "mypy" ∧ Project.isSourceRoot fs p then Project.packages fs p else [p]

theorem paths_build (fs : FileSystem) (config : Config) (paths : List Path) (ci : Bool)
    (tool : String) :
    (build fs config paths ci tool).paths = paths.flatMap (argumentsFor fs tool) := by
  by_cases h : tool = "mypy"
  · have hself : argumentsFor fs tool = fun p =>
        if Project.isSourceRoot fs p then Project.packages fs p else [p] := by
      funext p
      simp [argumentsFor, h]
    simp [build, Project.modules, h, ← hself]
  · have hself : argumentsFor fs tool = fun p => [p] := by
      funext p
      simp [argumentsFor, h]
    simp [build, h, hself]

/-- Directories that are joined to a search path are its entries, as they are written. -/
theorem splitOn_searchPath? {directories : List Path} {joined : String} (hne : directories ≠ [])
    (h : searchPath? directories = some joined) :
    joined.toList.splitOn ':' = directories.map (·.text.toList) := by
  unfold searchPath? at h
  split at h
  · cases h
  · rename_i hcolon
    cases h
    simp only [List.any_eq_true, decide_eq_true_eq, not_exists, not_and] at hcolon
    rw [String.toList_intercalate, List.map_map]
    refine List.splitOn_intercalate ':' ?_ (by simpa using hne)
    intro l hl
    obtain ⟨p, hp, rfl⟩ := List.mem_map.1 hl
    exact hcolon p hp

/-- The entries of mypy's search path are the source roots. -/
theorem splitOn_moduleSearchPath? {paths : List Path} {joined : String}
    (h : moduleSearchPath? fs paths = some joined) :
    joined.toList.splitOn ':' =
      (paths.filter (Project.isSourceRoot fs)).map (·.text.toList) := by
  unfold moduleSearchPath? at h
  split at h
  · rename_i text htext
    split at h
    · cases h
    · rename_i hne
      cases h
      refine splitOn_searchPath? ?_ htext
      intro hnil
      rw [hnil] at htext
      cases htext
      exact hne rfl
  · cases h

end Invocation

end LintReport
