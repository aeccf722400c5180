import ThemedPrompt.Text.Blank
import ThemedPrompt.Template.Value

/-! # Tags

What stands between two pairs of braces, blanks at its ends aside: a path, `if` and a path,
`else`, or `end`. Anything else is no tag of the language.
-/
namespace ThemedPrompt
namespace Template

inductive Tag
  | field (p : Path)
  | ifTag (p : Path)
  | elseTag
  | endTag
  | unknown
deriving DecidableEq, Repr

def isNameChar (c : Char) : Bool := c.isAlphanum || c = '_'

def isName (t : Text) : Bool := t ≠ [] && t.all isNameChar

def Path.ofText? : Text → Option Path
  | '.' :: names =>
    match Text.splitBy (· = '.') names with
    | [name] => if isName name then some ⟨name, none⟩ else none
    | [name, member] => if isName name && isName member then some ⟨name, some member⟩ else none
    | _ => none
  | _ => none

/-- The condition after `if`, set apart by at least one blank. -/
def condition? (body : Text) : Option Path :=
  match Text.after? "if".toList body with
  | some (c :: rest) =>
    if Text.isBlank c then Path.ofText? (rest.dropWhile Text.isBlank) else none
  | _ => none

def Tag.ofInner (inner : Text) : Tag :=
  let body := Text.trim inner
  match Path.ofText? body, condition? body with
  | some p, _ => .field p
  | none, some p => .ifTag p
  | none, none =>
    if body = "else".toList then .elseTag
    else if body = "end".toList then .endTag
    else .unknown

end Template
end ThemedPrompt
