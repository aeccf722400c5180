import ThemedPrompt.Files.Pathname

/-! # File trees

A file tree says what stands at each location. A path is followed name by name: every name but
the last must be that of a directory.
-/
namespace ThemedPrompt

inductive FileError
  | notFound
  | permissionDenied
  | alreadyExists
  | notADirectory
  | isADirectory
  | invalidUtf8
deriving DecidableEq, Repr

def FileError.message : FileError → Text
  | .notFound => "No such file or directory (os error 2)".toList
  | .permissionDenied => "Permission denied (os error 13)".toList
  | .alreadyExists => "File exists (os error 17)".toList
  | .notADirectory => "Not a directory (os error 20)".toList
  | .isADirectory => "Is a directory (os error 21)".toList
  | .invalidUtf8 => "stream did not contain valid UTF-8".toList

/-- The names on the way from the root. -/
abbrev Location := List Name

/-- A sealed file may be neither read nor written. -/
inductive Entry
  | file (content : Bytes)
  | sealed
  | directory
deriving DecidableEq, Repr

/-- Later entries for a location come first. -/
structure FileTree where
  workingDirectory : Location
  entries : List (Location × Entry)
deriving Repr

namespace FileTree

/-- The root is a directory. -/
def entry? (files : FileTree) (location : Location) : Option Entry :=
  if location = [] then some .directory else files.entries.lookup location

/-- The path of the working directory from the root. A working directory that is gone has none. -/
def workingPath (files : FileTree) : Option Pathname :=
  if files.entry? files.workingDirectory = some .directory then
    some (if files.workingDirectory = [] then ⟨[Pathname.slash]⟩
      else ⟨files.workingDirectory.flatMap (Pathname.slash :: ·)⟩)
  else none

def put (files : FileTree) (location : Location) (e : Entry) : FileTree :=
  { files with entries := (location, e) :: files.entries }

/-- Where a name leads from a directory. -/
def enter (location : Location) (name : Name) : Location :=
  if name = Pathname.here then location
  else if name = Pathname.up then location.dropLast
  else location ++ [name]

def follow (files : FileTree) (location : Location) : List Name → Except FileError Location
  | [] => .ok location
  | name :: names =>
    match files.entry? location with
    | some .directory => files.follow (enter location name) names
    | some _ => .error .notADirectory
    | none => .error .notFound

/-- Puts an entry where names lead, with directories on the way. -/
def place (files : FileTree) (location : Location) (e : Entry) : List Name → FileTree
  | [] => files.put location e
  | name :: names => (files.put location .directory).place (enter location name) e names

def start (files : FileTree) (absolute : Bool) : Location :=
  if absolute then [] else files.workingDirectory

/-- The location of a path. A slash at the end asks for a directory. -/
def locate (files : FileTree) (p : Pathname) : Except FileError Location :=
  if p.isEmpty then .error .notFound
  else
    let names := if p.endsWithSlash then p.names ++ [Pathname.here] else p.names
    files.follow (files.start p.isAbsolute) names

def read (files : FileTree) (p : Pathname) : Except FileError Bytes := do
  let location ← files.locate p
  match files.entry? location with
  | some (.file content) => return content
  | some .sealed => throw .permissionDenied
  | some .directory => throw .isADirectory
  | none => throw .notFound

/-- The content of a file that holds text. -/
def readText (files : FileTree) (p : Pathname) : Except FileError Text := do
  match Utf8.decode? (← files.read p) with
  | some t => return t
  | none => throw .invalidUtf8

/-- Writes a file, in place of one that is there. -/
def write (files : FileTree) (p : Pathname) (content : Bytes) : Except FileError FileTree := do
  if p.isEmpty then throw .notFound
  let location ← files.follow (files.start p.isAbsolute) p.names
  if p.endsWithSlash then throw .isADirectory
  match files.entry? location with
  | some .directory => throw .isADirectory
  | some .sealed => throw .permissionDenied
  | _ => return files.put location (.file content)

def makeDirectory (files : FileTree) (absolute : Bool) (names : List Name) :
    Except FileError FileTree := do
  let location ← files.follow (files.start absolute) names
  match files.entry? location with
  | some _ => throw .alreadyExists
  | none => return files.put location .directory

def isDirectory (files : FileTree) (absolute : Bool) (names : List Name) : Bool :=
  match files.follow (files.start absolute) names with
  | .ok location => files.entry? location = some .directory
  | .error _ => false

/-- Makes a directory after those above it, given the names in reverse. A directory that is
there already will do. What was made before a failure stays. -/
def makeDirectories (files : FileTree) (absolute : Bool) :
    List Name → FileTree × Except FileError Unit
  | [] => (files, .ok ())
  | name :: above =>
    let names := (name :: above).reverse
    match files.makeDirectory absolute names with
    | .ok made => (made, .ok ())
    | .error .notFound =>
      match files.makeDirectories absolute above with
      | (made, .error e) => (made, .error e)
      | (made, .ok _) =>
        if made.isDirectory absolute names then (made, .ok ())
        else match made.makeDirectory absolute names with
          | .ok more => (more, .ok ())
          | .error e => (made, .error e)
    | .error e => (files, if files.isDirectory absolute names then .ok () else .error e)

/-- Makes the directories that a path lies in. -/
def makeParents (files : FileTree) (p : Pathname) : FileTree × Except FileError Unit :=
  files.makeDirectories p.isAbsolute (p.components.reverse.drop 1)

end FileTree
end ThemedPrompt
