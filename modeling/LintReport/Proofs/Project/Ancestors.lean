import LintReport.Proofs.Project.MissingConfig
import LintReport.Proofs.Project.Packages
import Mathlib.Data.List.Infix

/-! The path of a location. Going up from it takes away one name after the other, so the paths above
it are those of the locations that lead there, the longest first; and it leads, through the
directories that are there, to that location. -/

namespace LintReport

open FileTree (isEntryName)
open FileSystem (absolute)

namespace FileTree

theorem isEntryName_fileName : isEntryName Config.fileName.text = true := by decide

/-- A location whose names can stand between the slashes of a path. -/
def IsNamed (here : Location) : Prop := ∀ name ∈ here, isEntryName name = true

theorem isNamed_concat {here : Location} {name : String} :
    IsNamed (here ++ [name]) ↔ IsNamed here ∧ isEntryName name = true := by
  simp [IsNamed, or_imp, forall_and]

theorem at?_append (tree : FileTree) (here there : Location) :
    tree.at? (here ++ there) = (tree.at? here).bind (·.at? there) := by
  induction here generalizing tree with
  | nil => rfl
  | cons name here ih =>
    cases tree with
    | file content => rfl
    | danglingLink => rfl
    | directory entries =>
      rw [List.cons_append, at?, at?]
      cases entries.lookup name with
      | none => rfl
      | some below => exact ih below

theorem at?_concat {tree : FileTree} {here : Location} {entries : List (String × FileTree)}
    (h : tree.at? here = some (.directory entries)) (name : String) :
    tree.at? (here ++ [name]) = entries.lookup name := by
  rw [at?_append, h, Option.bind_some, at?]
  cases entries.lookup name <;> rfl

/-- Only through directories a location leads anywhere. -/
theorem exists_directory_of_concat {tree below : FileTree} {here : Location} {name : String}
    (h : tree.at? (here ++ [name]) = some below) :
    ∃ entries, tree.at? here = some (.directory entries) ∧ entries.lookup name = some below := by
  rw [at?_append, Option.bind_eq_some_iff] at h
  obtain ⟨above, hat, hbelow⟩ := h
  cases above with
  | file content => cases hbelow
  | danglingLink => cases hbelow
  | directory entries =>
    have hlookup : (directory entries).at? ([] ++ [name]) = entries.lookup name :=
      at?_concat rfl name
    exact ⟨entries, hat, hlookup.symm.trans hbelow⟩

theorem isNamed_of_at? {tree below : FileTree} {here : Location} (hwell : tree.wellNamed = true)
    (h : tree.at? here = some below) : IsNamed here := by
  induction here using List.reverseRecOn generalizing below with
  | nil => exact List.forall_mem_nil _
  | append_singleton here name ih =>
    obtain ⟨entries, hat, hlookup⟩ := exists_directory_of_concat h
    have hmem : name ∈ entries.map (·.1) := by
      obtain ⟨before, behind, rfl, -⟩ := List.lookup_eq_some_iff.1 hlookup
      simp
    exact isNamed_concat.2 ⟨ih hat, isEntryName_of_mem (wellNamed_at? hwell hat) hmem⟩

end FileTree

open FileTree (IsNamed isNamed_concat isEntryName_iff)

namespace Path

/-! ### Going up -/

/-- What stands behind the first slash of a location's path. -/
def inside (here : Location) : List Char := ['/'].intercalate (here.map String.toList)

theorem toList_absolute (here : Location) :
    (absolute here).text.toList = '/' :: inside here := by
  rw [absolute, String.toList_append, String.toList_intercalate]
  rfl

theorem inside_concat (here : Location) (name : String) :
    inside (here ++ [name]) =
      if here = [] then name.toList else inside here ++ '/' :: name.toList := by
  induction here with
  | nil => simp [inside]
  | cons first rest ih =>
    rw [if_neg (List.cons_ne_nil first rest)]
    cases rest with
    | nil => simp [inside]
    | cons second rest =>
      rw [if_neg (List.cons_ne_nil second rest)] at ih
      simp only [inside, List.cons_append, List.map_cons, List.intercalate_cons_cons] at ih ⊢
      rw [ih]
      simp

theorem inside_concat_ne_nil {name : String} (h : isEntryName name = true) (here : Location) :
    inside (here ++ [name]) ≠ [] := by
  rw [inside_concat]
  split
  · simpa using (isEntryName_iff.1 h).1
  · simp

theorem trimBack_eq_self {s : List Char} (hslash : ∀ t, s ≠ '/' :: t) (hdot : s ≠ ['.'])
    (hboth : ∀ t, s ≠ '.' :: '/' :: t) : trimBack s = s := by
  unfold trimBack
  split
  · rfl
  · exact absurd rfl (hslash _)
  · exact absurd rfl hdot
  · exact absurd rfl (hboth _)
  · rfl

/-- A name ends in nothing that going up passes over. -/
theorem trimBack_reverse_name {name : String} (h : isEntryName name = true) (s : List Char) :
    trimBack (name.toList.reverse ++ s) = name.toList.reverse ++ s := by
  obtain ⟨hempty, hdot, -, hslash⟩ := isEntryName_iff.1 h
  have hback : '/' ∉ name.toList.reverse := by simpa using hslash
  have hone : name.toList.reverse ≠ ['.'] := by
    intro heq
    refine hdot (String.toList_inj.1 ?_)
    simpa using congrArg List.reverse heq
  cases hname : name.toList.reverse with
  | nil => exact absurd (String.toList_eq_nil_iff.1 (List.reverse_eq_nil_iff.1 hname)) hempty
  | cons c r =>
    rw [hname] at hback hone
    rw [List.mem_cons, not_or] at hback
    obtain ⟨hc, hr⟩ := hback
    refine trimBack_eq_self (fun t heq => hc (List.cons.inj heq).1.symm) ?_ ?_
    · intro heq
      obtain ⟨rfl, hnil⟩ := List.cons.inj heq
      exact hone (by rw [(List.append_eq_nil_iff.1 hnil).1])
    · intro t heq
      obtain ⟨rfl, htail⟩ := List.cons.inj heq
      cases r with
      | nil => exact hone rfl
      | cons d r => exact hr ((List.cons.inj htail).1 ▸ List.mem_cons_self)

theorem trimBack_inside {here : Location} (h : IsNamed here) :
    trimBack (inside here).reverse = (inside here).reverse := by
  induction here using List.reverseRecOn with
  | nil => rfl
  | append_singleton here name _ =>
    have hname := (isNamed_concat.1 h).2
    rw [inside_concat]
    split
    · have htrim := trimBack_reverse_name hname []
      rwa [List.append_nil] at htrim
    · rw [List.reverse_append, List.reverse_cons, List.append_assoc]
      exact trimBack_reverse_name hname _

/-- The last name goes, and then the slash before it. -/
theorem trimBack_dropWhile_inside {name : String} (h : isEntryName name = true) (here : Location) :
    trimBack ((inside (here ++ [name])).reverse.dropWhile (· ≠ '/')) =
      trimBack (inside here).reverse := by
  obtain ⟨-, -, -, hslash⟩ := isEntryName_iff.1 h
  have hdrop (s : List Char) :
      (name.toList.reverse ++ s).dropWhile (· ≠ '/') = s.dropWhile (· ≠ '/') := by
    refine List.dropWhile_append_of_pos fun c hc => decide_eq_true ?_
    rintro rfl
    exact hslash (List.mem_reverse.1 hc)
  rw [inside_concat]
  split
  · rename_i hroot
    have hnil := hdrop []
    rw [List.append_nil] at hnil
    rw [hnil, hroot]
    rfl
  · rw [List.reverse_append, List.reverse_cons, List.append_assoc, hdrop]
    rfl

theorem parent?_root : parent? (absolute []) = none := by decide

theorem parent?_absolute_concat {here : Location} {name : String} (h : IsNamed (here ++ [name])) :
    parent? (absolute (here ++ [name])) = some (absolute here) := by
  obtain ⟨hhere, hname⟩ := isNamed_concat.1 h
  simp only [parent?, toList_absolute, splitRoot, trimBack_inside h]
  split
  · rename_i hnil
    exact absurd (List.reverse_eq_nil_iff.1 hnil) (inside_concat_ne_nil hname here)
  · rw [trimBack_dropWhile_inside hname, trimBack_inside hhere, List.reverse_reverse,
      List.singleton_append, ← toList_absolute, String.ofList_toList]

theorem ancestors_of_parent? {p q : Path} (h : p.parent? = some q) :
    p.ancestors = p :: q.ancestors := by
  rw [ancestors]
  split
  · rename_i hnone
    rw [h] at hnone
    cases hnone
  · rename_i above habove
    rw [h] at habove
    rw [Option.some.inj habove]

theorem ancestors_of_no_parent {p : Path} (h : p.parent? = none) : p.ancestors = [p] := by
  rw [ancestors]
  split
  · rfl
  · rename_i above habove
    rw [h] at habove
    cases habove

/-- Above a location's path are the paths of the locations that lead there. -/
theorem ancestors_absolute {here : Location} (h : IsNamed here) :
    ancestors (absolute here) = here.inits.reverse.map absolute := by
  induction here using List.reverseRecOn with
  | nil => exact ancestors_of_no_parent parent?_root
  | append_singleton here name ih =>
    have hinits : (here ++ [name]).inits.reverse = (here ++ [name]) :: here.inits.reverse := by
      simp [List.inits_append]
    rw [ancestors_of_parent? (parent?_absolute_concat h), hinits, List.map_cons,
      ih (isNamed_concat.1 h).1]

/-! ### Going down -/

theorem absolute_ne_empty (here : Location) : (absolute here).text ≠ "" := by
  intro heq
  simpa [toList_absolute] using congrArg String.toList heq

/-- A location's path ends in a slash only at the root. -/
theorem getLast?_absolute {here : Location} (h : IsNamed here) :
    (absolute here).text.toList.getLast? = some '/' ↔ here = [] := by
  constructor
  · intro hlast
    rcases List.eq_nil_or_concat' here with rfl | ⟨above, last, rfl⟩
    · rfl
    · have hne := inside_concat_ne_nil (isNamed_concat.1 h).2 above
      have hhead := head?_trimBack_ne (inside (above ++ [last])).reverse
      rw [trimBack_inside h, List.head?_reverse] at hhead
      rw [toList_absolute, List.getLast?_cons_of_ne_nil hne] at hlast
      exact absurd hlast hhead
  · rintro rfl
    decide

/-- One name more is one step more. -/
theorem join_absolute {here : Location} {name : String} (h : IsNamed (here ++ [name])) :
    (absolute here).join ⟨name⟩ = absolute (here ++ [name]) := by
  obtain ⟨hhere, hname⟩ := isNamed_concat.1 h
  have hrelative : isAbsolute ⟨name⟩ = false := FileSystem.isAbsolute_of_isEntryName hname
  have htext (p : Path) (hp : p.text.toList = '/' :: inside (here ++ [name])) :
      p = absolute (here ++ [name]) :=
    congrArg Path.mk (String.toList_inj.1 (hp.trans (toList_absolute _).symm))
  refine htext _ ?_
  rw [inside_concat, join, if_neg (by simp [hrelative, absolute_ne_empty])]
  by_cases hroot : here = []
  · rw [if_pos ((getLast?_absolute hhere).2 hroot), if_pos hroot, String.toList_append,
      toList_absolute, hroot]
    rfl
  · rw [if_neg (mt (getLast?_absolute hhere).1 hroot), if_neg hroot, String.toList_append,
      String.toList_append, toList_absolute]
    simp

/-- Every name of a location takes its own bytes and a slash. -/
theorem utf8ByteSize_absolute_concat {here : Location} {name : String}
    (h : IsNamed (here ++ [name])) :
    (absolute (here ++ [name])).text.utf8ByteSize =
      (if here = [] then 0 else (absolute here).text.utf8ByteSize) + 1 + name.utf8ByteSize := by
  obtain ⟨hhere, hname⟩ := isNamed_concat.1 h
  have hslash : "/".utf8ByteSize = 1 := by decide
  rw [← join_absolute h, join, if_neg (by
    simp [FileSystem.isAbsolute_of_isEntryName hname, absolute_ne_empty])]
  by_cases hroot : here = []
  · rw [if_pos ((getLast?_absolute hhere).2 hroot), if_pos hroot, String.utf8ByteSize_append, hroot]
    rfl
  · rw [if_neg (mt (getLast?_absolute hhere).1 hroot), if_neg hroot, String.utf8ByteSize_append,
      String.utf8ByteSize_append, hslash]

end Path

namespace FileSystem

variable {fs : FileSystem} {here : Location} {entries : List (String × FileTree)}

theorem step_of_isEntryName {name : String} (hname : isEntryName name = true)
    (hat : fs.tree.at? here = some (.directory entries)) :
    fs.step { location := here } name =
      if (FileTree.reached? (entries.lookup name)).isSome then .ok { location := here ++ [name] }
      else if nameLimit < name.utf8ByteSize then .error .nameTooLong
      else .error .notFound := by
  obtain ⟨hempty, hdot, hdots, -⟩ := isEntryName_iff.1 hname
  have hplace : fs.at? { location := here } = some (.directory entries) := by
    rw [at?, if_pos rfl, hat]
    rfl
  simp only [step, hplace, hempty, hdot, hdots, or_self, if_false, true_and, Place.below]

theorem locate_root (hat : fs.tree.at? [] = some (.directory entries)) :
    fs.locate (absolute []) = .ok .root := by
  have hsteps : (absolute []).steps = ["", ""] := by decide
  have hstart : fs.start (absolute []) = .root := rfl
  have hstay : fs.step .root "" = .ok .root := by
    simp only [step, at?, Place.root, if_true, hat, FileTree.reached?, true_or]
  rw [locate_of_no_fault (by decide), hsteps, hstart, List.foldlM_cons, hstay]
  change [""].foldlM fs.step .root = _
  rw [List.foldlM_cons, hstay]
  rfl

/-- The path of a directory leads there. -/
theorem locate_absolute (hnamed : IsNamed here)
    (hat : fs.tree.at? here = some (.directory entries)) (hfault : fault? (absolute here) = none) :
    fs.locate (absolute here) = .ok { location := here } := by
  induction here using List.reverseRecOn generalizing entries with
  | nil => exact locate_root hat
  | append_singleton here name ih =>
    obtain ⟨hhere, hname⟩ := isNamed_concat.1 hnamed
    obtain ⟨above, habove, hlookup⟩ := FileTree.exists_directory_of_concat hat
    rw [← Path.join_absolute hnamed] at hfault ⊢
    have hnonempty := Path.absolute_ne_empty here
    have habovePath := fault?_of_join hnonempty (isAbsolute_of_isEntryName hname) hfault
    rw [locate_join_name hname hnonempty hfault, ih hhere habove habovePath]
    change fs.step { location := here } name = _
    rw [step_of_isEntryName hname habove, hlookup]
    rfl

end FileSystem

end LintReport
