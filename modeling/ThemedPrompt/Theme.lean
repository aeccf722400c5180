import ThemedPrompt.Document
import ThemedPrompt.Json.Number

/-! # Themes

A theme is a list of blocks of segments, and a palette of named colours.
-/
namespace ThemedPrompt

/-- What a segment shows. -/
inductive Kind
  | shell
  | path
  | git
  | time
  | session
  | user
  | root
  | status
  | exit
  | text
  | os
  | other (name : Text)
deriving DecidableEq, Repr

namespace Kind

def name : Kind → Text
  | .shell => "shell".toList
  | .path => "path".toList
  | .git => "git".toList
  | .time => "time".toList
  | .session => "session".toList
  | .user => "user".toList
  | .root => "root".toList
  | .status => "status".toList
  | .exit => "exit".toList
  | .text => "text".toList
  | .os => "os".toList
  | .other name => name

def known : List Kind :=
  [.shell, .path, .git, .time, .session, .user, .root, .status, .exit, .text, .os]

/-- Any name is that of a kind; one that is not known is kept as it is. -/
def ofName (name : Text) : Kind := (known.find? (·.name = name)).getD (.other name)

end Kind

structure Segment where
  kind : Kind := .other []
  template : Option Text := none
  foreground : Option Text := none
  background : Option Text := none
  leadingDiamond : Option Text := none
  trailingDiamond : Option Text := none
  powerlineSymbol : Option Text := none
deriving DecidableEq, Repr

inductive Alignment
  | left
  | right
  | newline
deriving DecidableEq, Repr

structure Block where
  kind : Text := []
  alignment : Alignment := .left
  newline : Bool := false
  segments : List Segment := []
deriving DecidableEq, Repr

namespace Block

/-- Only blocks of this kind are rendered. -/
def isPrompt (b : Block) : Bool := b.kind = "prompt".toList

/-- A line ends after the block. -/
def breaksLine (b : Block) : Bool := b.newline || b.alignment = .newline

end Block

/-- A theme without blocks differs from one with an empty list of them; so for the palette. -/
structure Theme where
  version : Option Document := none
  blocks : Option (List Block) := none
  palette : Option (List (Text × Text)) := none
deriving Repr

structure Theme.Info where
  version : Text
  blockCount : Nat
  segmentCount : Nat
  hasPalette : Bool
deriving DecidableEq, Repr

namespace Theme

/-- The colour that a reference stands for: `p:` and a name stands for a colour of the palette
that is not empty, an empty reference for none, and any other for itself. -/
def resolve (t : Theme) (reference : Option Text) : Option Text :=
  match reference with
  | none => none
  | some [] => none
  | some ('p' :: ':' :: name) =>
    (t.palette.bind (·.lookup name)).bind fun color => if color = [] then none else some color
  | some color => some color

def versionText : Option Document → Text
  | some (.text t) => t
  | some (.int n) => Text.ofInt n
  | some (.float x) => Json.floatText x
  | _ => "unknown".toList

def info (t : Theme) : Info :=
  let blocks := t.blocks.getD []
  ⟨versionText t.version, blocks.length, (blocks.map (·.segments.length)).foldl (· + ·) 0, t.palette.isSome⟩

end Theme
end ThemedPrompt
