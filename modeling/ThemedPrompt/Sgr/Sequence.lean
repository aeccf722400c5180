import ThemedPrompt.Text.Basic

/-! # Graphic rendition sequences

A sequence is ESC, `[`, decimal codes with `;` between them, and `m`. A text is cut at the
leftmost sequences, one after the other; everything else is literal.
-/
namespace ThemedPrompt
namespace Sgr

def esc : Char := '\x1b'

/-- A code is a 32-bit word; larger numbers stick at the largest word. -/
def codeLimit : Nat := 4294967295

def code (digits : Text) : Nat := min (Text.natValue digits) codeLimit

def write (codes : List Nat) : Text :=
  esc :: '[' :: (Text.join [';'] (codes.map Text.ofNat) ++ ['m'])

/-- The sequence that clears every attribute and colour. -/
def reset : Text := write [0]

theorem length_dropWhile_le (p : Char → Bool) (t : Text) : (t.dropWhile p).length ≤ t.length :=
  (List.dropWhile_sublist p).length_le

/-- The number at the front of a text. -/
def number? (t : Text) : Option Nat :=
  if t.takeWhile Char.isDigit = [] then none else some (code (t.takeWhile Char.isDigit))

/-- The codes up to the closing `m` at the front of a text, and what follows it. -/
def parameters? (t : Text) : Option (List Nat × Text) :=
  match number? t, _h : t.dropWhile Char.isDigit with
  | some n, ';' :: rest => (parameters? rest).map fun (codes, after) => (n :: codes, after)
  | some n, 'm' :: rest => some ([n], rest)
  | _, _ => none
termination_by t.length
decreasing_by
  have := length_dropWhile_le Char.isDigit t
  simp_all only [List.length_cons]
  omega

/-- The sequence at the front of a text: its codes, and what follows it. -/
def sequence? : Text → Option (List Nat × Text)
  | '\x1b' :: '[' :: rest => parameters? rest
  | _ => none

theorem length_of_parameters? {t rest : Text} {codes : List Nat}
    (h : parameters? t = some (codes, rest)) : rest.length < t.length := by
  fun_induction parameters? t generalizing codes with
  | case1 t n after hn hd ih =>
    obtain ⟨⟨cs, r⟩, hp, heq⟩ := Option.map_eq_some_iff.1 h
    cases heq
    have := ih hp
    have := length_dropWhile_le Char.isDigit t
    simp_all only [List.length_cons]
    omega
  | case2 t n after hn hd =>
    have := length_dropWhile_le Char.isDigit t
    simp_all only [List.length_cons, Option.some.injEq, Prod.mk.injEq]
    omega
  | case3 => simp at h

theorem length_of_sequence? {t rest : Text} {codes : List Nat}
    (h : sequence? t = some (codes, rest)) : rest.length < t.length := by
  unfold sequence? at h
  split at h
  · have := length_of_parameters? h
    simp only [List.length_cons]
    omega
  · simp at h

/-- A text is made of characters and complete sequences. -/
inductive Piece
  | literal (c : Char)
  | codes (codes : List Nat)
deriving DecidableEq, Repr

/-- Cuts a text at its leftmost sequences. -/
def pieces : Text → List Piece
  | [] => []
  | c :: cs =>
    match _h : sequence? (c :: cs) with
    | some (codes, rest) => .codes codes :: pieces rest
    | none => .literal c :: pieces cs
termination_by t => t.length
decreasing_by
  · exact length_of_sequence? _h
  · simp

def Piece.literal? : Piece → Option Char
  | .literal c => some c
  | .codes _ => none

/-- The text without its sequences; anything malformed stays. -/
def strip (t : Text) : Text := (pieces t).filterMap Piece.literal?

def hasSequence (t : Text) : Bool := (pieces t).any (·.literal?.isNone)

end Sgr
end ThemedPrompt
