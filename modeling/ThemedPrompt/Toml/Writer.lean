import ThemedPrompt.Document
import ThemedPrompt.Text.Hex

/-! # Writing TOML

A string is written in the plainest of five forms that can hold it. A record is written with its
texts, numbers and constants first, each on a line, and then its records under headers.
-/
namespace ThemedPrompt
namespace Toml

/-- What a string holds that not every form can. -/
structure Contents where
  singleQuotes : Nat
  doubleQuotes : Nat
  backslash : Bool
  newline : Bool
  control : Bool
deriving DecidableEq, Repr

/-- The longest stretch of a character, given the stretch that a text follows. -/
def longestStretch (q : Char) (current : Nat) : Text → Nat
  | [] => current
  | c :: rest =>
    if c = q then longestStretch q (current + 1) rest else max current (longestStretch q 0 rest)

/-- Control characters other than tab and line feed. -/
def isControl (c : Char) : Bool :=
  (c.toNat < 0x20 && c ≠ '\t' && c ≠ '\n') || c.toNat = 0x7f

def contents (t : Text) : Contents where
  singleQuotes := longestStretch '\'' 0 t
  doubleQuotes := longestStretch '"' 0 t
  backslash := t.contains '\\'
  newline := t.contains '\n'
  control := t.any isControl

inductive Form
  | basic
  | literal
  | basicLines
  | literalLines
deriving DecidableEq, Repr

/-- The first form that needs no escapes, and the basic ones where all need some. -/
def Contents.form (c : Contents) : Form :=
  if !c.control && !c.backslash && c.doubleQuotes = 0 && !c.newline then .basic
  else if !c.control && c.singleQuotes = 0 && !c.newline then .literal
  else if !c.control && !c.backslash && c.doubleQuotes ≤ 2 then .basicLines
  else if !c.control && c.singleQuotes ≤ 2 then .literalLines
  else if c.newline then .basicLines
  else .basic

def escapeChar (c : Char) : Text :=
  match c with
  | '\x08' => ['\\', 'b']
  | '\t' => ['\\', 't']
  | '\n' => ['\\', 'n']
  | '\x0c' => ['\\', 'f']
  | '\r' => ['\\', 'r']
  | '\\' => ['\\', '\\']
  | c =>
    if isControl c then
      ['\\', 'u', '0', '0', Text.hexDigitUpper (c.toNat / 16), Text.hexDigitUpper (c.toNat % 16)]
    else [c]

/-- The inside of a basic string: of quotes in a row, `quotes` more are left as they are. -/
def escapeBasic (lines : Bool) (allowed : Nat) (quotes : Nat) : Text → Text
  | [] => []
  | c :: rest =>
    if c = '"' then
      match quotes with
      | 0 => '\\' :: '"' :: escapeBasic lines allowed allowed rest
      | left + 1 => '"' :: escapeBasic lines allowed left rest
    else if lines && c = '\n' then '\n' :: escapeBasic lines allowed allowed rest
    else escapeChar c ++ escapeBasic lines allowed allowed rest

def quoted (t : Text) : Text :=
  let firstBreak : Text := if t.contains '\n' then ['\n'] else []
  match (contents t).form with
  | .basic => '"' :: (escapeBasic false 0 0 t ++ ['"'])
  | .literal => '\'' :: (t ++ ['\''])
  | .basicLines => "\"\"\"".toList ++ firstBreak ++ escapeBasic true 2 2 t ++ "\"\"\"".toList
  | .literalLines => "'''".toList ++ firstBreak ++ t ++ "'''".toList

/-- Values that stand on the line of their key. -/
def inline? : Document → Option Text
  | .text t => some (quoted t)
  | .int n => some (Text.ofInt n)
  | .bool b => some (Text.ofBool b)
  | _ => none

def assignment? (key : Text) (d : Document) : Option Text :=
  (inline? d).map fun v => key ++ " = ".toList ++ v ++ ['\n']

/-- The lines of the values of a record. -/
def assignments (entries : List (Text × Document)) : Text :=
  (entries.filterMap fun (key, d) => assignment? key d).flatten

/-- A record under a header, after a blank line. -/
def section? (key : Text) : Document → Option Text
  | .record entries => some ("\n[".toList ++ key ++ "]\n".toList ++ assignments entries)
  | _ => none

/-- A record whose values are at most records of plain values, with bare keys. -/
def write (entries : List (Text × Document)) : Text :=
  assignments entries ++ (entries.filterMap fun (key, d) => section? key d).flatten

end Toml
end ThemedPrompt
