import LintReport.FileSystem

/-!
What is scanned: the paths that the tools are given, and the packages in the directories among
them that hold packages without being one.
-/
namespace LintReport.Project

/-- The paths to scan. Those of the command line come first, then the configured ones, which are
relative to the project, then the usual directories that exist. -/
def sources (fs : FileSystem) (directory : Path) (explicit configured : List Path)
    (includeTests : Bool) : List Path :=
  if explicit ≠ [] then explicit
  else if configured ≠ [] then configured.map directory.join
  else
    let usual := if includeTests then [⟨"src"⟩, ⟨"tests"⟩] else [⟨"src"⟩]
    (usual.map directory.join).filter fs.isDirectory

/-- Hidden directories and the bytecode cache hold no package. -/
def isVisible (name : String) : Bool := name.toList.head? ≠ some '.' && name ≠ "__pycache__"

/-- The visible subdirectories, in the order of their paths. -/
def packages (fs : FileSystem) (directory : Path) : List Path :=
  let visible := (fs.names directory).filter fun name =>
    isVisible name && fs.isDirectory (directory.join ⟨name⟩)
  (visible.mergeSort fun a b => decide (a ≤ b)).map fun name => directory.join ⟨name⟩

/-- A source root: a directory that holds packages and is none itself. -/
def isSourceRoot (fs : FileSystem) (p : Path) : Bool :=
  fs.isDirectory p && !fs.exists? (p.join ⟨"__init__.py"⟩) && !(packages fs p).isEmpty

/-- The paths with the packages of each source root in its place. -/
def modules (fs : FileSystem) (paths : List Path) : List Path :=
  paths.flatMap fun p => if isSourceRoot fs p then packages fs p else [p]

end LintReport.Project
