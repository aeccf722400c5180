import ThemedPrompt.Config.File

/-! # Searching for a configuration

Directories are searched in order, and each format in turn in every directory. The first file
that can be read wins; files that cannot be read are passed over.
-/
namespace ThemedPrompt

/-- The directories, and the file that the last configuration found was read from. -/
structure Search where
  directories : List Pathname
  currentPath : Option Pathname := none
deriving DecidableEq, Repr

namespace Search

structure Options where
  acceptDefault : Bool := true
  check : Bool := true
deriving DecidableEq, Repr

def add (s : Search) (directory : Pathname) : Search :=
  { s with directories := s.directories ++ [directory] }

/-- The files to look at, in order. -/
def candidates (s : Search) : List (Pathname × Config.Format) :=
  s.directories.flatMap fun directory =>
    Config.Format.all.map fun format => (directory.join format.fileName, format)

def find? (s : Search) (files : FileTree) : Option (Pathname × Config) :=
  s.candidates.findSome? fun (path, format) =>
    match Config.read files format path with
    | .ok c => some (path, c)
    | .error _ => none

/-- The configuration found is checked and its file remembered. Without one, the default
configuration may do. -/
def load (s : Search) (files : FileTree) (options : Options) : Search × Except Error Config :=
  match s.find? files with
  | none => (s, if options.acceptDefault then .ok {} else .error .configNotFound)
  | some (path, c) =>
    match if options.check then c.check else .ok () with
    | .error e => (s, .error e)
    | .ok _ => ({ s with currentPath := some path }, .ok c)

end Search
end ThemedPrompt
