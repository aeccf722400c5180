import ThemedPrompt.Toml.Scalar
import ThemedPrompt.Toml.Table
import ThemedPrompt.Toml.Token

/-! # Reading TOML

The tokens are read one by one. What may come next is the mode; the open containers are on a
stack, and finished statements are kept in reverse.
-/
namespace ThemedPrompt
namespace Toml

/-- What a key is read for. -/
inductive Purpose
  | assignment
  | table
  | element
deriving DecidableEq, Repr

inductive Mode
  | line
  | header
  | keyPart (purpose : Purpose) (parts : List Text)
  | keyRest (purpose : Purpose) (parts : List Text)
  | equalsSign (path : List Text)
  | secondBracket (path : List Text)
  | lineEnd
  | value
  | word (t : Text)
  | wordSpace (t space : Text)
  | entry
  | afterItem
  | afterEntry
deriving DecidableEq, Repr

/-- A value that is being written: that of a line, of a list, or of an inline table, whose
finished parts are in reverse. -/
inductive Frame
  | line (path : List Text)
  | list (items : List Document)
  | table (assignments : List (List Text × Document)) (path : List Text)

structure Progress where
  mode : Mode := .line
  stack : List Frame := []
  statements : List Statement := []

/-- Lists and inline tables may be nested this deep. -/
def depthLimit : Nat := 80

/-- A key may have this many parts. -/
def keyLimit : Nat := 80

def isBareChar (c : Char) : Bool := c.isAlphanum || c = '_' || c = '-'

/-- The part of a key that a token can be. -/
def keyPart? : Token → Option Text
  | .line t => some t
  | .word t => if t.all isBareChar then some t else none
  | _ => none

namespace Progress

/-- A value is complete: it goes to the innermost container. -/
def complete (p : Progress) (d : Document) : Option Progress :=
  match p.stack with
  | .line path :: rest => some ⟨.lineEnd, rest, .assign path d :: p.statements⟩
  | .list items :: rest => some { p with mode := .afterItem, stack := .list (d :: items) :: rest }
  | .table assignments path :: rest =>
    some { p with mode := .afterEntry, stack := .table ((path, d) :: assignments) [] :: rest }
  | [] => none

def closeList (p : Progress) : Option Progress :=
  match p.stack with
  | .list items :: rest => complete { p with stack := rest } (.list items.reverse)
  | _ => none

def closeTable (p : Progress) : Option Progress :=
  match p.stack with
  | .table assignments _ :: rest =>
    (inlineTable? assignments.reverse).bind (complete { p with stack := rest })
  | _ => none

/-- Opens a list or an inline table as the value that is expected. -/
def openWith (p : Progress) (f : Frame) (mode : Mode) : Option Progress :=
  if p.stack.length ≤ depthLimit then some { p with mode := mode, stack := f :: p.stack } else none

/-- Inside lists and inline tables lines may end anywhere but within a key. -/
def inContainer (p : Progress) : Bool :=
  match p.stack with
  | .list _ :: _ => true
  | .table _ _ :: _ => true
  | _ => false

/-- The key of an assignment is complete. -/
def expectValue (p : Progress) (path : List Text) : Option Progress :=
  match p.stack with
  | [] => some { p with mode := .value, stack := [.line path] }
  | .table assignments _ :: rest =>
    some { p with mode := .value, stack := .table assignments path :: rest }
  | _ => none

/-- A token that ends a value or stands between values. -/
def separate (p : Progress) (tok : Token) : Option Progress :=
  match p.mode, tok with
  | .lineEnd, .space _ => some p
  | .lineEnd, .newline => some { p with mode := .line }
  | .afterItem, .space _ => some p
  | .afterItem, .newline => some p
  | .afterItem, .comma => some { p with mode := .value }
  | .afterItem, .closeBracket => p.closeList
  | .afterEntry, .space _ => some p
  | .afterEntry, .newline => some p
  | .afterEntry, .comma => some { p with mode := .entry }
  | .afterEntry, .closeBrace => p.closeTable
  | _, _ => none

/-- A token where a value must start. -/
def startValue (p : Progress) : Token → Option Progress
  | .space _ => some p
  | .newline => if p.inContainer then some p else none
  | .openBracket => p.openWith (.list []) .value
  | .closeBracket => p.closeList
  | .openBrace => p.openWith (.table [] []) .entry
  | .line t => p.complete (.text t)
  | .lines t => p.complete (.text t)
  | .word t => some { p with mode := .word t }
  | _ => none

/-- A word was not continued. -/
def endWord (p : Progress) (t : Text) (tok : Token) : Option Progress := do
  let p ← p.complete (← value? t)
  p.separate tok

def step (p : Progress) (tok : Token) : Option Progress :=
  match p.mode with
  | .line =>
    match tok with
    | .space _ => some p
    | .newline => some p
    | .openBracket => some { p with mode := .header }
    | tok => (keyPart? tok).map fun k => { p with mode := .keyRest .assignment [k] }
  | .header =>
    match tok with
    | .space _ => some { p with mode := .keyPart .table [] }
    | .openBracket => some { p with mode := .keyPart .element [] }
    | tok => (keyPart? tok).map fun k => { p with mode := .keyRest .table [k] }
  | .keyPart purpose parts =>
    match tok with
    | .space _ => some p
    | tok =>
      if parts.length < keyLimit then
        (keyPart? tok).map fun k => { p with mode := .keyRest purpose (k :: parts) }
      else none
  | .keyRest purpose parts =>
    match tok, purpose with
    | .space _, _ => some p
    | .dot, _ => some { p with mode := .keyPart purpose parts }
    | .equals, .assignment => p.expectValue parts.reverse
    | .newline, .assignment =>
      if p.inContainer then some { p with mode := .equalsSign parts.reverse } else none
    | .closeBracket, .table =>
      some { p with mode := .lineEnd, statements := .table parts.reverse :: p.statements }
    | .closeBracket, .element => some { p with mode := .secondBracket parts.reverse }
    | _, _ => none
  | .equalsSign path =>
    match tok with
    | .space _ => some p
    | .newline => some p
    | .equals => p.expectValue path
    | _ => none
  | .secondBracket path =>
    match tok with
    | .closeBracket => some { p with mode := .lineEnd, statements := .element path :: p.statements }
    | _ => none
  | .value => p.startValue tok
  | .word t =>
    match tok with
    | .dot => some { p with mode := .word (t ++ ['.']) }
    | .word more => some { p with mode := .word (t ++ more) }
    | .space s => some { p with mode := .wordSpace t s }
    | tok => p.endWord t tok
  | .wordSpace t s =>
    match tok with
    | .word more => some { p with mode := .word (t ++ s ++ more) }
    | tok => p.endWord t tok
  | .entry =>
    match tok with
    | .space _ => some p
    | .newline => some p
    | .closeBrace => p.closeTable
    | tok => (keyPart? tok).map fun k => { p with mode := .keyRest .assignment [k] }
  | .lineEnd => p.separate tok
  | .afterItem => p.separate tok
  | .afterEntry => p.separate tok

/-- The statements in order, if the last line is complete. -/
def statements? (p : Progress) : Option (List Statement) :=
  if p.mode = .line then some p.statements.reverse else none

end Progress

/-- A byte order mark in front is no part of the text. -/
def dropMark : Text → Text
  | '\uFEFF' :: rest => rest
  | t => t

/-- Reads a text; the end of the text ends its last line. -/
def read? (t : Text) : Option Document := do
  let tokens ← tokens? (dropMark t)
  let last ← (tokens ++ [Token.newline]).foldlM Progress.step {}
  ofStatements? (← last.statements?)

end Toml
end ThemedPrompt
