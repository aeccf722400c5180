import ThemedPrompt.Text.Basic

/-! # Values of templates

A template is filled from a record, and reads it along paths of one or two names.
-/
namespace ThemedPrompt
namespace Template

inductive Value
  | text (t : Text)
  | int (n : Int)
  | bool (b : Bool)
  | record (fields : List (Text × Value))
deriving Repr

abbrev Record := List (Text × Value)

namespace Value

/-- The empty text, zero, false and the empty record are not truthy. -/
def truthy : Value → Bool
  | .text t => t ≠ []
  | .int n => n ≠ 0
  | .bool b => b
  | .record fields => !fields.isEmpty

/-- A record has no text. -/
def toText : Value → Text
  | .text t => t
  | .int n => Text.ofInt n
  | .bool b => Text.ofBool b
  | .record _ => []

end Value

/-- `.name`, or `.name.member`. -/
structure Path where
  name : Text
  member : Option Text := none
deriving DecidableEq, Repr

/-- A path through something that is not a record leads nowhere. -/
def Path.lookup (p : Path) (data : Record) : Option Value :=
  match data.lookup p.name, p.member with
  | some v, none => some v
  | some (.record fields), some member => fields.lookup member
  | _, _ => none

def Path.textIn (p : Path) (data : Record) : Text := (p.lookup data).elim [] Value.toText

def Path.holdsIn (p : Path) (data : Record) : Bool := (p.lookup data).elim false Value.truthy

end Template
end ThemedPrompt
