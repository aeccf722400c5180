import ThemedPrompt.Config.Document
import ThemedPrompt.Files.Tree

/-! # Configuration files

A configuration is loaded from a file and saved to one. The name of the file tells the format.
-/
namespace ThemedPrompt
namespace Config

/-- Reads a file in a format. What it says is not checked. -/
def read (files : FileTree) (format : Format) (p : Pathname) : Except Error Config :=
  match files.readText p with
  | .error e => .error (.configUnreadable p e.message)
  | .ok t =>
    match ofText? format t with
    | some c => .ok c
    | none => .error (.configMalformed format.name none)

def load (files : FileTree) (p : Pathname) : Except Error Config := do
  let c ← read files (.ofPath p) p
  c.check
  return c

/-- Saves a configuration, and makes the directories for it first. A configuration that cannot
be written leaves its file alone. -/
def save (files : FileTree) (c : Config) (p : Pathname) : FileTree × Except Error Unit :=
  let format := Format.ofPath p
  match files.makeParents p with
  | (made, .error e) => (made, .error (.system e.message))
  | (made, .ok _) =>
    match c.toText? format with
    | none =>
      (made, .error (.configUnwritable format.name "path contains invalid UTF-8 characters".toList))
    | some t =>
      match made.write p (Utf8.encode t) with
      | .error e => (made, .error (.system e.message))
      | .ok written => (written, .ok ())

end Config
end ThemedPrompt
