import ThemedPrompt.Json.Token

/-! # Reading JSON

The tokens are read one by one with the open containers on a stack. What may come next is the
state, so a text is refused at the first token that does not fit.
-/
namespace ThemedPrompt
namespace Json

/-- An open container, its finished parts in reverse. A key that is unreadable is absent. -/
inductive Frame
  | list (items : List Document)
  | record (entries : List (Option Text × Document)) (name : Option Text)
deriving Repr

inductive Expecting
  | value (stack : List Frame)
  | firstItem (stack : List Frame)
  | firstKey (stack : List Frame)
  | key (entries : List (Option Text × Document)) (stack : List Frame)
  | colon (entries : List (Option Text × Document)) (name : Option Text) (stack : List Frame)
  | continuation (d : Document) (stack : List Frame)
deriving Repr

/-- A record with an unreadable key is unreadable itself. -/
def recordOf (entries : List (Option Text × Document)) : Document :=
  match entries.mapM fun (key, d) => key.map (·, d) with
  | some entries => .record entries.reverse
  | none => .unreadable

def stringOf (units : List Nat) : Document :=
  match textOfUnits? units with
  | some t => .text t
  | none => .unreadable

/-- A token where a value must start. -/
def Expecting.start (stack : List Frame) : Token → Option Expecting
  | .openRecord => some (.firstKey stack)
  | .openList => some (.firstItem stack)
  | .string units => some (.continuation (stringOf units) stack)
  | .scalar d => some (.continuation d stack)
  | _ => none

def Expecting.step : Expecting → Token → Option Expecting
  | .value stack, tok => start stack tok
  | .firstItem stack, .closeList => some (.continuation (.list []) stack)
  | .firstItem stack, tok => start (.list [] :: stack) tok
  | .firstKey stack, .closeRecord => some (.continuation (.record []) stack)
  | .firstKey stack, .string units => some (.colon [] (textOfUnits? units) stack)
  | .key entries stack, .string units => some (.colon entries (textOfUnits? units) stack)
  | .colon entries name stack, .colon => some (.value (.record entries name :: stack))
  | .continuation d (.list items :: stack), .comma => some (.value (.list (d :: items) :: stack))
  | .continuation d (.list items :: stack), .closeList =>
    some (.continuation (.list (d :: items).reverse) stack)
  | .continuation d (.record entries name :: stack), .comma => some (.key ((name, d) :: entries) stack)
  | .continuation d (.record entries name :: stack), .closeRecord =>
    some (.continuation (recordOf ((name, d) :: entries)) stack)
  | _, _ => none

def Expecting.finished? : Expecting → Option Document
  | .continuation d [] => some d
  | _ => none

/-- Reads a text by the grammar alone; parts without meaning are unreadable. -/
def parse? (t : Text) : Option Document := do
  let tokens ← tokens? t
  let last ← tokens.foldlM Expecting.step (.value [])
  last.finished?

/-- Containers may be nested this deep. -/
def depthLimit : Nat := 127

/-- Reads a text all of whose parts have a meaning; of entries with one key the last counts. -/
def read? (t : Text) : Option Document := do
  let d ← parse? t
  if d.readable && d.depth ≤ depthLimit then some d.settled else none

end Json
end ThemedPrompt
