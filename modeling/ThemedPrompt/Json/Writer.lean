import ThemedPrompt.Text.Hex
import ThemedPrompt.Json.Number

/-! # Writing JSON

On one line without spaces, or with one entry a line, indented by two spaces a level.
-/
namespace ThemedPrompt
namespace Json

/-- Quotes, backslashes and control characters are escaped, all else stands for itself. -/
def escapeChar (c : Char) : Text :=
  match c with
  | '"' => ['\\', '"']
  | '\\' => ['\\', '\\']
  | '\x08' => ['\\', 'b']
  | '\x0c' => ['\\', 'f']
  | '\n' => ['\\', 'n']
  | '\r' => ['\\', 'r']
  | '\t' => ['\\', 't']
  | c =>
    if c.toNat < 0x20 then
      ['\\', 'u', '0', '0', Text.hexDigit (c.toNat / 16), Text.hexDigit (c.toNat % 16)]
    else [c]

def quoted (t : Text) : Text := '"' :: (t.flatMap escapeChar ++ ['"'])

/-- How the parts of a container are set apart. -/
structure Layout where
  /-- What stands before the parts and the closing bracket at a depth. -/
  lineBreak : Nat → Text
  afterColon : Text

def Layout.compact : Layout := ⟨fun _ => [], []⟩

def Layout.indented : Layout := ⟨fun depth => '\n' :: List.replicate (2 * depth) ' ', [' ']⟩

mutual

def write (layout : Layout) (depth : Nat) : Document → Text
  | .null => "null".toList
  | .bool b => Text.ofBool b
  | .int n => Text.ofInt n
  | .float x => floatText x
  | .nonFinite => "null".toList
  | .text t => quoted t
  | .list [] => "[]".toList
  | .list (d :: ds) =>
    '[' :: (layout.lineBreak (depth + 1) ++ write layout (depth + 1) d
      ++ writeItems layout (depth + 1) ds ++ layout.lineBreak depth ++ [']'])
  | .record [] => ['\x7b', '\x7d']
  | .record ((key, d) :: entries) =>
    '\x7b' :: (layout.lineBreak (depth + 1) ++ quoted key ++ ':' :: layout.afterColon
      ++ write layout (depth + 1) d ++ writeEntries layout (depth + 1) entries
      ++ layout.lineBreak depth ++ ['\x7d'])
  | .unreadable => "null".toList

def writeItems (layout : Layout) (depth : Nat) : List Document → Text
  | [] => []
  | d :: ds => ',' :: (layout.lineBreak depth ++ write layout depth d ++ writeItems layout depth ds)

def writeEntries (layout : Layout) (depth : Nat) : List (Text × Document) → Text
  | [] => []
  | (key, d) :: entries =>
    ',' :: (layout.lineBreak depth ++ quoted key ++ ':' :: layout.afterColon
      ++ write layout depth d ++ writeEntries layout depth entries)

end

def compact (d : Document) : Text := write Layout.compact 0 d

def pretty (d : Document) : Text := write Layout.indented 0 d

end Json
end ThemedPrompt
