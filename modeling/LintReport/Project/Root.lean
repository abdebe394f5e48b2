import LintReport.Config.Reader

/-!
Where a project is and what its configuration is: the one named on the command line, or the
nearest one above the working directory.
-/
namespace LintReport.Project

/-- Why there is no project to work on, or no configuration for it. -/
inductive Failure where
  | config (e : ConfigError)
  /-- The configuration file named on the command line cannot be read. -/
  | unreadable (failure : ReadFailure)
  /-- The working directory, from which the project is looked for, has been removed. -/
  | lostDirectory
  deriving DecidableEq, Repr

def Failure.message : Failure → String
  | config e => e.message
  | unreadable failure => failure.message
  | lostDirectory => ReadFailure.notFound.message

/-- The nearest directory from `start` upwards with a configuration file. -/
def findRoot? (fs : FileSystem) (start : Path) : Option Path :=
  start.ancestors.find? fun directory => fs.isFile (directory.join Config.fileName)

/-- The directory of the project: that of the named file, or what else is named, or the nearest one
with a configuration file, or the working directory. -/
def root (fs : FileSystem) : Option Path → Except Failure Path
  | some named =>
    if fs.isFile named then
      match named.parent? with
      | some above => .ok (if above.text = "" then ⟨"."⟩ else above)
      | none => .ok ⟨"."⟩
    else .ok named
  | none =>
    match fs.cwdPath? with
    | some cwd => .ok ((findRoot? fs cwd).getD cwd)
    | none => .error .lostDirectory

/-- The configuration: a named file is read as it is; otherwise the directory of the project may
hold one. -/
def loadConfig (fs : FileSystem) (named : Option Path) (directory : Path) : Except Failure Config :=
  match named with
  | some file =>
    if fs.isFile file then
      match fs.readText file with
      | .ok text => (Config.ofText text).mapError .config
      | .error failure => .error (.unreadable failure)
    else (Config.loadOrDefault fs directory).mapError .config
  | none => (Config.loadOrDefault fs directory).mapError .config

end LintReport.Project
