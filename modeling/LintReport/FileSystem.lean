import LintReport.FileTree
import LintReport.Path

/-!
A file system: a tree of files and the working directory, and the questions that paths ask of it.
-/
namespace LintReport

/-- Why a file cannot be read as text. -/
inductive ReadFailure where
  | notFound
  | notADirectory
  | isADirectory
  /-- A name in the path, or the path as a whole, has more bytes than may be. -/
  | nameTooLong
  /-- The path contains the character NUL. -/
  | nulInPath
  | notText
  deriving DecidableEq, Repr

def ReadFailure.message : ReadFailure → String
  | notFound => "No such file or directory (os error 2)"
  | notADirectory => "Not a directory (os error 20)"
  | isADirectory => "Is a directory (os error 21)"
  | nameTooLong => "File name too long (os error 36)"
  | nulInPath => "file name contained an unexpected NUL byte"
  | notText => "stream did not contain valid UTF-8"

/-- Where a path leads. A directory that is removed while it is the working directory stays one,
but an empty one in which nothing can be made; only the way up is open from it. -/
structure Place where
  location : Location
  /-- How many names at the end of the location are those of removed directories. -/
  removed : Nat := 0
  deriving DecidableEq, Inhabited

namespace Place

def root : Place := { location := [] }

def up (place : Place) : Place :=
  { location := place.location.dropLast, removed := place.removed - 1 }

def below (place : Place) (name : String) : Place := { location := place.location ++ [name] }

end Place

/-- A tree, and the directory from which relative paths lead. -/
structure FileSystem where
  tree : FileTree
  cwd : Place
  deriving Inhabited

namespace FileSystem

/-- The most bytes that the name of a file or directory may have. -/
def nameLimit : Nat := 255

/-- The most bytes that a path may have. -/
def pathLimit : Nat := 4095

/-- What is reached at a place. -/
def at? (fs : FileSystem) (place : Place) : Option FileTree :=
  if place.removed = 0 then FileTree.reached? (fs.tree.at? place.location)
  else some (.directory [])

/-- One step of a path, which only a directory allows. -/
def step (fs : FileSystem) (here : Place) (name : String) : Except ReadFailure Place :=
  match fs.at? here with
  | none | some .danglingLink => .error .notFound
  | some (.file _) => .error .notADirectory
  | some (.directory entries) =>
    if name = "" ∨ name = "." then .ok here
    else if name = ".." then .ok here.up
    else if (FileTree.reached? (entries.lookup name)).isSome then .ok (here.below name)
    else if here.removed = 0 ∧ nameLimit < name.utf8ByteSize then .error .nameTooLong
    else .error .notFound

/-- The place from which a path leads. -/
def start (fs : FileSystem) (p : Path) : Place := if p.isAbsolute then .root else fs.cwd

/-- What is wrong with a path whatever it leads to. -/
def fault? (p : Path) : Option ReadFailure :=
  if '\x00' ∈ p.text.toList then some .nulInPath
  else if p.text = "" then some .notFound
  else if pathLimit < p.text.utf8ByteSize then some .nameTooLong
  else none

/-- The place that a path leads to. What is wrong with the path as a whole comes before what a step
of it meets. -/
def locate (fs : FileSystem) (p : Path) : Except ReadFailure Place :=
  match fault? p with
  | some failure => .error failure
  | none => p.steps.foldlM fs.step (fs.start p)

def find? (fs : FileSystem) (p : Path) : Option FileTree :=
  match fs.locate p with
  | .ok place => fs.at? place
  | .error _ => none

def exists? (fs : FileSystem) (p : Path) : Bool := (fs.find? p).isSome

def isFile (fs : FileSystem) (p : Path) : Bool :=
  match fs.find? p with
  | some (.file _) => true
  | _ => false

def isDirectory (fs : FileSystem) (p : Path) : Bool :=
  match fs.find? p with
  | some (.directory _) => true
  | _ => false

/-- The names in a directory; none if there is no such directory. -/
def names (fs : FileSystem) (p : Path) : List String :=
  match fs.find? p with
  | some (.directory entries) => entries.map (·.1)
  | _ => []

/-- The text of a file. -/
def readText (fs : FileSystem) (p : Path) : Except ReadFailure (List Char) :=
  match fs.locate p with
  | .error e => .error e
  | .ok place =>
    match fs.at? place with
    | none | some .danglingLink => .error .notFound
    | some (.directory _) => .error .isADirectory
    | some (.file content) =>
      match Text.Utf8.text? content with
      | some text => .ok text
      | none => .error .notText

/-- A place as an absolute path. -/
def absolute (place : Location) : Path := ⟨"/" ++ String.intercalate "/" place⟩

/-- The place that a path spells from a directory, whatever is there. -/
def spelled (base : Location) (p : Path) : Location :=
  p.steps.foldl
    (fun here name =>
      if name = "" ∨ name = "." then here
      else if name = ".." then here.dropLast
      else here ++ [name])
    (if p.isAbsolute then [] else base)

/-- The working directory as a path, unless it has been removed. -/
def cwdPath? (fs : FileSystem) : Option Path :=
  if fs.cwd.removed = 0 then some (absolute fs.cwd.location) else none

end FileSystem

end LintReport
