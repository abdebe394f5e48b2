import LintReport.Text.Utf8

/-!
Trees of files and directories, and how they are looked up and built at a location.
-/
namespace LintReport

/-- A link that leads to something stands here as what it leads to. -/
inductive FileTree where
  | file (content : Bytes)
  | directory (entries : List (String × FileTree))
  /-- A link that leads nowhere. Its directory lists it, but who goes by its name finds nothing. -/
  | danglingLink
  deriving Repr, Inhabited

/-- A place in a tree: the names that lead to it from the root. -/
abbrev Location := List String

namespace FileTree

def at? : FileTree → Location → Option FileTree
  | tree, [] => some tree
  | file _, _ :: _ => none
  | danglingLink, _ :: _ => none
  | directory entries, name :: rest =>
    match entries.lookup name with
    | some tree => tree.at? rest
    | none => none

/-- What is reached where something may stand. -/
def reached? : Option FileTree → Option FileTree
  | some danglingLink => none
  | found => found

theorem reached?_eq_some_iff {found : Option FileTree} {tree : FileTree} :
    reached? found = some tree ↔ found = some tree ∧ tree ≠ danglingLink := by
  unfold reached?
  split
  · simp [eq_comm]
  · rename_i hne
    exact ⟨fun h => ⟨h, fun htree => hne (htree ▸ h)⟩, And.left⟩

theorem reached?_eq_none_iff {found : Option FileTree} :
    reached? found = none ↔ found = none ∨ found = some danglingLink := by
  unfold reached?
  split <;> simp_all

/-- The entries with one of them set. -/
def setEntry (name : String) (tree : FileTree) : List (String × FileTree) → List (String × FileTree)
  | [] => [(name, tree)]
  | entry :: rest =>
    if entry.1 = name then (name, tree) :: rest else entry :: setEntry name tree rest

/-- The tree with something put at a place, and the directories made that lead there. -/
def put (new : FileTree) : Location → FileTree → FileTree
  | [], _ => new
  | name :: rest, directory entries =>
    directory (setEntry name (put new rest ((entries.lookup name).getD (directory []))) entries)
  | name :: rest, _ => directory [(name, put new rest (directory []))]

end FileTree

end LintReport
