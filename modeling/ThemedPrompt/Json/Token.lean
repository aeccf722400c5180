import ThemedPrompt.Text.Hex
import ThemedPrompt.Json.Number

/-! # Tokens of JSON

A string token holds code points and, from `\u` escapes, 16-bit units; two surrogates in a row
make one character, and a surrogate alone makes the string unreadable.
-/
namespace ThemedPrompt
namespace Json

inductive Token
  | openRecord
  | closeRecord
  | openList
  | closeList
  | colon
  | comma
  | string (units : List Nat)
  | scalar (d : Document)
deriving Repr

/-- The text of a string, unless a surrogate stands alone. -/
def textOfUnits? : List Nat → Option Text
  | [] => some []
  | high :: low :: rest =>
    if 0xd800 ≤ high ∧ high ≤ 0xdbff then
      if 0xdc00 ≤ low ∧ low ≤ 0xdfff then
        (textOfUnits? rest).map
          (Char.ofNat (0x10000 + 0x400 * (high - 0xd800) + (low - 0xdc00)) :: ·)
      else none
    else if 0xdc00 ≤ high ∧ high ≤ 0xdfff then none
    else (textOfUnits? (low :: rest)).map (Char.ofNat high :: ·)
  | [unit] => if 0xd800 ≤ unit ∧ unit ≤ 0xdfff then none else some [Char.ofNat unit]

def simpleEscape? : Char → Option Char
  | '"' => some '"'
  | '\\' => some '\\'
  | '/' => some '/'
  | 'b' => some '\x08'
  | 'f' => some '\x0c'
  | 'n' => some '\n'
  | 'r' => some '\r'
  | 't' => some '\t'
  | _ => none

/-- The units of a string up to its closing quote, and what follows it. -/
def stringUnits? : Text → Option (List Nat × Text)
  | [] => none
  | '"' :: rest => some ([], rest)
  | '\\' :: 'u' :: a :: b :: c :: d :: rest => do
    let unit ← Text.hexNumber? [a, b, c, d]
    let (units, after) ← stringUnits? rest
    return (unit :: units, after)
  | '\\' :: e :: rest => do
    let c ← simpleEscape? e
    let (units, after) ← stringUnits? rest
    return (c.toNat :: units, after)
  | c :: rest =>
    if c.toNat < 0x20 ∨ c = '\\' then none
    else (stringUnits? rest).map fun (units, after) => (c.toNat :: units, after)

theorem length_of_stringUnits? {t rest : Text} {units : List Nat}
    (h : stringUnits? t = some (units, rest)) : rest.length < t.length := by
  fun_induction stringUnits? t generalizing units rest with
  | case1 => simp at h
  | case2 => simp_all
  | case3 a b c d tail ih =>
    simp only [Option.bind_eq_bind, Option.bind_eq_some_iff] at h
    obtain ⟨_, _, ⟨us, r⟩, hr, heq⟩ := h
    cases heq
    have := ih hr
    simp only [List.length_cons]
    omega
  | case4 e tail _ ih =>
    simp only [Option.bind_eq_bind, Option.bind_eq_some_iff] at h
    obtain ⟨_, _, ⟨us, r⟩, hr, heq⟩ := h
    cases heq
    have := ih hr
    simp only [List.length_cons]
    omega
  | case5 => simp at h
  | case6 c tail _ _ _ _ ih =>
    obtain ⟨⟨us, r⟩, hr, heq⟩ := Option.map_eq_some_iff.1 h
    cases heq
    have := ih hr
    simp only [List.length_cons]
    omega

/-- The digits at the front of a text, at least one, and what follows them. -/
def digits? (t : Text) : Option (Text × Text) :=
  if t.takeWhile Char.isDigit = [] then none
  else some (t.takeWhile Char.isDigit, t.dropWhile Char.isDigit)

/-- A fraction at the front of a text; a point without digits is left where it is. -/
def fraction : Text → Option Text × Text
  | '.' :: rest =>
    match digits? rest with
    | some (digits, after) => (some digits, after)
    | none => (none, '.' :: rest)
  | t => (none, t)

def exponentDigits : Text → Option (Bool × Text × Text)
  | '-' :: rest => (digits? rest).map (true, ·)
  | '+' :: rest => (digits? rest).map (false, ·)
  | t => (digits? t).map (false, ·)

/-- An exponent at the front of a text; a mark without digits is left where it is. -/
def exponent : Text → Option (Bool × Text) × Text
  | c :: rest =>
    if c = 'e' ∨ c = 'E' then
      match exponentDigits rest with
      | some (down, digits, after) => (some (down, digits), after)
      | none => (none, c :: rest)
    else (none, c :: rest)
  | [] => (none, [])

/-- The digits of a whole part: a zero stands alone. -/
def whole? (t : Text) : Option (Text × Text) :=
  match t with
  | '0' :: rest => some (['0'], rest)
  | t => digits? t

/-- A number without its sign. -/
def magnitude? (negative : Bool) (t : Text) : Option (Numeral × Text) := do
  let (digits, rest) ← whole? t
  let (places, rest) := fraction rest
  let (power, rest) := exponent rest
  return (⟨negative, digits, places, power⟩, rest)

def numeral? : Text → Option (Numeral × Text)
  | '-' :: rest => magnitude? true rest
  | t => magnitude? false t

def isSpace (c : Char) : Bool := c = ' ' || c = '\t' || c = '\n' || c = '\r'

/-- The token at the front of a text. -/
def token? : Text → Option (Token × Text)
  | '\x7b' :: rest => some (.openRecord, rest)
  | '\x7d' :: rest => some (.closeRecord, rest)
  | '[' :: rest => some (.openList, rest)
  | ']' :: rest => some (.closeList, rest)
  | ':' :: rest => some (.colon, rest)
  | ',' :: rest => some (.comma, rest)
  | '"' :: rest => (stringUnits? rest).map fun (units, after) => (.string units, after)
  | 'n' :: 'u' :: 'l' :: 'l' :: rest => some (.scalar .null, rest)
  | 't' :: 'r' :: 'u' :: 'e' :: rest => some (.scalar (.bool true), rest)
  | 'f' :: 'a' :: 'l' :: 's' :: 'e' :: rest => some (.scalar (.bool false), rest)
  | t => (numeral? t).map fun (x, after) => (.scalar x.toDocument, after)

theorem length_of_digits? {t digits rest : Text} (h : digits? t = some (digits, rest)) :
    rest.length < t.length := by
  unfold digits? at h
  split at h
  · simp at h
  · next hne =>
    simp only [Option.some.injEq, Prod.mk.injEq] at h
    have hlen := congrArg List.length (List.takeWhile_append_dropWhile (p := Char.isDigit) (l := t))
    have hpos := List.length_pos_iff.2 hne
    rw [List.length_append] at hlen
    rw [← h.2]
    omega

theorem length_fraction_le (t : Text) : (fraction t).2.length ≤ t.length := by
  unfold fraction
  split
  · split
    · next h => have := length_of_digits? h; simp only [List.length_cons]; omega
    · simp
  · simp

theorem length_of_exponentDigits {t digits rest : Text} {down : Bool}
    (h : exponentDigits t = some (down, digits, rest)) : rest.length < t.length := by
  unfold exponentDigits at h
  split at h <;> obtain ⟨⟨ds, after⟩, hd, heq⟩ := Option.map_eq_some_iff.1 h <;>
    have := length_of_digits? hd <;> grind

theorem length_exponent_le (t : Text) : (exponent t).2.length ≤ t.length := by
  unfold exponent
  split
  · split
    · split
      · next down digits after h =>
        have := length_of_exponentDigits h
        simp only [List.length_cons]
        omega
      · simp
    · simp
  · simp

theorem length_of_whole? {t digits rest : Text} (h : whole? t = some (digits, rest)) :
    rest.length < t.length := by
  unfold whole? at h
  split at h
  · grind
  · exact length_of_digits? h

theorem length_of_numeral? {t rest : Text} {x : Numeral} (h : numeral? t = some (x, rest)) :
    rest.length < t.length := by
  have key : ∀ {b : Bool} {u : Text}, magnitude? b u = some (x, rest) →
      rest.length < u.length := by
    intro b u hm
    simp only [magnitude?, Option.bind_eq_bind, Option.bind_eq_some_iff] at hm
    obtain ⟨⟨ds, r⟩, hw, heq⟩ := hm
    have h₁ := length_of_whole? hw
    have h₂ := length_fraction_le r
    have h₃ := length_exponent_le (fraction r).2
    cases heq
    exact Nat.lt_of_le_of_lt (Nat.le_trans h₃ h₂) h₁
  unfold numeral? at h
  split at h
  · have := key h
    simp only [List.length_cons]
    omega
  · exact key h

theorem length_of_token? {t rest : Text} {tok : Token} (h : token? t = some (tok, rest)) :
    rest.length < t.length := by
  unfold token? at h
  split at h <;> try (simp only [Option.some.injEq, Prod.mk.injEq] at h; grind)
  · obtain ⟨⟨us, after⟩, hs, heq⟩ := Option.map_eq_some_iff.1 h
    cases heq
    have := length_of_stringUnits? hs
    simp only [List.length_cons]
    omega
  · obtain ⟨⟨x, after⟩, hn, heq⟩ := Option.map_eq_some_iff.1 h
    cases heq
    exact length_of_numeral? hn

/-- The tokens of a text, with spaces between them left out. -/
def tokens? : Text → Option (List Token)
  | [] => some []
  | c :: cs =>
    if isSpace c then tokens? cs
    else match _h : token? (c :: cs) with
      | some (tok, rest) => (tokens? rest).map (tok :: ·)
      | none => none
termination_by t => t.length
decreasing_by
  · simp
  · exact length_of_token? _h

end Json
end ThemedPrompt
