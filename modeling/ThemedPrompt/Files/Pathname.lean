import ThemedPrompt.Text.Utf8

/-! # Path names

A path name is a string of bytes: names with slashes between them, from the root if it starts
with a slash.
-/
namespace ThemedPrompt

structure Pathname where
  bytes : Bytes
deriving DecidableEq, Repr

abbrev Name := List UInt8

namespace Pathname

def slash : UInt8 := 0x2f

def dot : UInt8 := 0x2e

def here : Name := [dot]

def up : Name := [dot, dot]

def ofText (t : Text) : Pathname := ⟨Utf8.encode t⟩

def text? (p : Pathname) : Option Text := Utf8.decode? p.bytes

/-- The path as it is shown, whatever its bytes are. -/
def display (p : Pathname) : Text := Utf8.decodeLossy p.bytes

def isAbsolute (p : Pathname) : Bool := p.bytes.head? = some slash

def isEmpty (p : Pathname) : Bool := p.bytes.isEmpty

/-- The names in a path, empty ones left out. -/
def names (p : Pathname) : List Name := (Text.splitBy (· = slash) p.bytes).filter (· ≠ [])

def endsWithSlash (p : Pathname) : Bool := p.bytes.getLast? = some slash

/-- The names that tell paths apart: `.` counts only at the start of a relative path. -/
def components (p : Pathname) : List Name :=
  match p.isAbsolute, p.names with
  | false, first :: rest => first :: rest.filter (· ≠ here)
  | _, names => names.filter (· ≠ here)

/-- Two paths are alike if they differ only in redundant slashes and dots. -/
def alike (p q : Pathname) : Bool := p.isAbsolute = q.isAbsolute && p.components = q.components

/-- The path inside a directory. An absolute path stays as it is. -/
def join (directory p : Pathname) : Pathname :=
  if p.isAbsolute then p
  else if directory.isEmpty || directory.endsWithSlash then ⟨directory.bytes ++ p.bytes⟩
  else ⟨directory.bytes ++ slash :: p.bytes⟩

/-- The last name, unless the path ends with `..` or has no name. -/
def fileName? (p : Pathname) : Option Name :=
  p.components.getLast?.filter fun name => name ≠ up && name ≠ here

/-- What follows the last dot of the file name; a dot in front of everything does not count. -/
def extension? (p : Pathname) : Option Name :=
  p.fileName?.bind fun name =>
    let behind := name.reverse.takeWhile (· ≠ dot)
    match name.reverse.dropWhile (· ≠ dot) with
    | _ :: _ :: _ => some behind.reverse
    | _ => none

end Pathname
end ThemedPrompt
