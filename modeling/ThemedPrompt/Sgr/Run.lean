import ThemedPrompt.Sgr.Sequence
import ThemedPrompt.Sgr.Style

/-! # Runs

A text with sequences is decoded in one pass into runs, stretches of text of one style. The
scanner keeps an unfinished sequence aside: it is either completed, or it turns out to be
literal text.
-/
namespace ThemedPrompt

structure Run where
  content : Text
  style : Style
deriving DecidableEq, Repr

namespace Sgr

/-- An unfinished sequence: its text in reverse and the codes read, in reverse. The number
being read is absent right after `[` and `;`, where a digit must follow. -/
structure Unfinished where
  raw : Text
  codes : List Nat
  current : Option Nat
deriving DecidableEq, Repr

inductive Pending
  | none
  | escape
  | parameters (u : Unfinished)
deriving DecidableEq, Repr

/-- The characters of an unfinished sequence, in reverse. -/
def Pending.raw : Pending → Text
  | .none => []
  | .escape => [esc]
  | .parameters u => u.raw

/-- The finished runs and the literal text before the unfinished sequence are in reverse. -/
structure Scanner where
  runs : List Run := []
  style : Style := Style.plain
  literal : Text := []
  pending : Pending := .none
deriving DecidableEq, Repr

namespace Scanner

def pushDigit (n : Nat) (c : Char) : Nat := min (10 * n + Text.digitValue c) codeLimit

def flush (s : Scanner) (literal : Text) : List Run :=
  if literal = [] then s.runs else ⟨literal.reverse, s.style⟩ :: s.runs

/-- Outside a sequence only ESC is special. -/
def text (s : Scanner) (c : Char) : Scanner :=
  if c = esc then { s with pending := .escape }
  else { s with literal := c :: s.literal, pending := .none }

/-- The unfinished sequence is literal text, and the character after it is read anew. -/
def abandon (s : Scanner) (c : Char) : Scanner :=
  text { s with literal := s.pending.raw ++ s.literal } c

def complete (s : Scanner) (codes : List Nat) : Scanner :=
  ⟨s.flush s.literal, s.style.apply codes, [], .none⟩

def step (s : Scanner) (c : Char) : Scanner :=
  match s.pending with
  | .none => s.text c
  | .escape =>
    if c = '[' then { s with pending := .parameters ⟨['[', esc], [], none⟩ } else s.abandon c
  | .parameters u =>
    if c.isDigit then
      let current := pushDigit (u.current.getD 0) c
      { s with pending := .parameters ⟨c :: u.raw, u.codes, some current⟩ }
    else match u.current with
      | none => s.abandon c
      | some n =>
        if c = ';' then { s with pending := .parameters ⟨c :: u.raw, n :: u.codes, none⟩ }
        else if c = 'm' then s.complete (n :: u.codes).reverse
        else s.abandon c

/-- The runs of everything read, an unfinished sequence being literal text. -/
def finish (s : Scanner) : List Run := (s.flush (s.pending.raw ++ s.literal)).reverse

end Scanner

def decode (t : Text) : List Run := (t.foldl Scanner.step {}).finish

end Sgr
end ThemedPrompt
