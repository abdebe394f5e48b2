import LintReport.Run

/-!
The program itself. It looks up in the file system what a run may ask of it, and prints the
outcome of the run. It starts no other programs: every call of a tool counts as one that could not
be started, and is reported as such.
-/
namespace LintReport.Main

/-- What is at a place: a file with its content, or a directory with what it holds, of which no
more is looked at than whether it is a directory. What may not be looked at counts as absent. -/
def look (place : Location) : IO (Option FileTree) := do
  let path := (← IO.currentDir) / (FileSystem.absolute place).text
  try
    if ← path.isDir then
      let entries ← (← path.readDir).toList.mapM fun entry => do
        if ← entry.path.isDir then return (entry.fileName, .directory [])
        else if ← entry.path.pathExists then return (entry.fileName, .file [])
        else return (entry.fileName, FileTree.danglingLink)
      return some (.directory entries)
    else if ← path.pathExists then
      return some (.file (← IO.FS.readBinFile path).toList)
    else
      return none
  catch _ => return none

/-- The tree with what is at some places added, outer places before inner ones. -/
def explore (tree : FileTree) (places : List Location) : IO FileTree :=
  (places.mergeSort fun a b => decide (a.length ≤ b.length)).foldlM
    (fun tree place => do
      match ← look place with
      | some found => return FileTree.put found place tree
      | none => return tree)
    tree

/-- A place and all places above it. -/
def upwards (place : Location) : List Location := (List.range (place.length + 1)).map place.take

/-- The places that decide where the project is and what its configuration is. -/
def projectPlaces (cwd : Location) (named : Option Path) : List Location :=
  let start := (named.map (FileSystem.spelled cwd)).getD cwd
  let directories := (upwards cwd ++ upwards start).eraseDups
  directories ++ directories.map fun place => FileSystem.spelled place Config.fileName

/-- The world of a run. The paths to scan are known only when the configuration is, so they are
looked up last. -/
def world (args : List String) : IO World := do
  let cwd := FileSystem.spelled [] ⟨(← IO.currentDir).toString⟩
  let inWorkflow := (← IO.getEnv "GITHUB_ACTIONS").isSome
  let onTerminal ← (← IO.getStdout).isTty
  let worldOf (tree : FileTree) : World :=
    { files := { tree, cwd := { location := cwd } }
      program? := fun _ _ => none
      inWorkflow
      onTerminal }
  match CommandLine.read args with
  | .error _ => return worldOf (.directory [])
  | .ok c =>
    let places := projectPlaces cwd (c.config.map Path.mk)
    let tree ← explore (.directory []) places
    match c.plan (worldOf tree) with
    | .error _ => return worldOf tree
    | .ok plan =>
      return worldOf (← explore (.directory []) (places ++ plan.paths.map (FileSystem.spelled cwd)))

end LintReport.Main

def main (args : List String) : IO UInt32 := do
  let outcome := LintReport.run (← LintReport.Main.world args) args
  IO.print outcome.stdout
  IO.eprint outcome.stderr
  for call in outcome.calls do
    IO.eprintln ("warning: could not start " ++ call.program)
  return UInt32.ofNat outcome.status
