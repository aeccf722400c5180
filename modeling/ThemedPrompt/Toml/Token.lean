import ThemedPrompt.Text.Hex

/-! # Tokens of TOML

Comments are left out, and strings stand decoded. Everything without a meaning of its own is a
word: the parts of bare keys, numbers, dates and constants.
-/
namespace ThemedPrompt
namespace Toml

inductive Token
  | dot
  | equals
  | comma
  | openBracket
  | closeBracket
  | openBrace
  | closeBrace
  | newline
  | space (t : Text)
  | line (t : Text)
  | lines (t : Text)
  | word (t : Text)
deriving DecidableEq, Repr

def isSpace (c : Char) : Bool := c = ' ' || c = '\t'

/-- Control characters other than the tab may not be written. -/
def isPlain (c : Char) : Bool := c = '\t' || (0x20 ≤ c.toNat && c.toNat ≠ 0x7f)

/-- The character with a code, unless it is half of a surrogate pair or none at all. -/
def scalar? (code : Nat) : Option Char :=
  if code < 0xd800 ∨ (0xe000 ≤ code ∧ code ≤ 0x10ffff) then some (Char.ofNat code) else none

def simpleEscape? : Char → Option Char
  | 'b' => some '\x08'
  | 't' => some '\t'
  | 'n' => some '\n'
  | 'f' => some '\x0c'
  | 'r' => some '\r'
  | 'e' => some '\x1b'
  | '"' => some '"'
  | '\\' => some '\\'
  | _ => none

/-- The number of hexadecimal digits after an escape letter. -/
def escapeWidth? : Char → Option Nat
  | 'x' => some 2
  | 'u' => some 4
  | 'U' => some 8
  | _ => none

/-- The character that an escape stands for, given what follows its backslash. -/
def escape? : Text → Option (Char × Text)
  | [] => none
  | c :: rest =>
    match escapeWidth? c with
    | some width =>
      if rest.length < width then none
      else ((Text.hexNumber? (rest.take width)).bind scalar?).map (·, rest.drop width)
    | none => (simpleEscape? c).map (·, rest)

theorem length_of_escape? {t rest : Text} {c : Char} (h : escape? t = some (c, rest)) :
    rest.length < t.length := by
  unfold escape? at h
  split at h
  · simp at h
  · next e tail =>
    split at h
    · split at h
      · simp at h
      · obtain ⟨_, _, heq⟩ := Option.map_eq_some_iff.1 h
        cases heq
        simp only [List.length_drop, List.length_cons]
        omega
    · obtain ⟨_, _, heq⟩ := Option.map_eq_some_iff.1 h
      cases heq
      simp

/-- A string on one line up to its quote, and what follows it. -/
def basic? : Text → Option (Text × Text)
  | [] => none
  | '"' :: rest => some ([], rest)
  | '\\' :: rest =>
    match _h : escape? rest with
    | some (c, rest) => (basic? rest).map fun (t, after) => (c :: t, after)
    | none => none
  | c :: rest =>
    if isPlain c then (basic? rest).map fun (t, after) => (c :: t, after) else none
termination_by t => t.length
decreasing_by
  · have := length_of_escape? _h
    simp only [List.length_cons]
    omega
  · simp

def literal? : Text → Option (Text × Text)
  | [] => none
  | '\'' :: rest => some ([], rest)
  | c :: rest =>
    if isPlain c then (literal? rest).map fun (t, after) => (c :: t, after) else none

/-- The end of a string of several lines: three quotes, of up to five, are not part of it. -/
def closing? (quote : Char) : Text → Option (Text × Text)
  | a :: b :: c :: rest =>
    if a = quote ∧ b = quote ∧ c = quote then
      let more := (rest.take 2).takeWhile (· = quote)
      some (more, rest.drop more.length)
    else none
  | _ => none

/-- A line break at the front of a text, and what follows it. -/
def lineBreak? : Text → Option (Text × Text)
  | '\n' :: rest => some (['\n'], rest)
  | '\r' :: '\n' :: rest => some (['\r', '\n'], rest)
  | _ => none

/-- The text after spaces and line breaks. -/
def skipBlank : Text → Text
  | [] => []
  | c :: rest =>
    if isSpace c || c = '\n' then skipBlank rest
    else match c, rest with
      | '\r', '\n' :: after => skipBlank after
      | c, rest => c :: rest

theorem length_skipBlank_le (t : Text) : (skipBlank t).length ≤ t.length := by
  fun_induction skipBlank t <;> simp_all <;> omega

/-- A backslash at the end of a line joins the next text to it. -/
def continuation? (t : Text) : Option Text :=
  (lineBreak? (t.dropWhile isSpace)).map fun (_, rest) => skipBlank rest

theorem length_of_lineBreak? {t taken rest : Text} (h : lineBreak? t = some (taken, rest)) :
    rest.length < t.length := by
  unfold lineBreak? at h
  split at h <;> grind

theorem length_of_continuation? {t rest : Text} (h : continuation? t = some rest) :
    rest.length < t.length := by
  obtain ⟨⟨taken, after⟩, hb, heq⟩ := Option.map_eq_some_iff.1 h
  have h₁ := length_of_lineBreak? hb
  have h₂ := length_skipBlank_le after
  have h₃ := (List.dropWhile_sublist isSpace (l := t)).length_le
  simp only at heq
  subst heq
  omega

/-- A string of several lines up to its quotes, and what follows them. -/
def basicLines? (t : Text) : Option (Text × Text) :=
  match closing? '"' t with
  | some (more, rest) => some (more, rest)
  | none =>
    match t with
    | [] => none
    | '\\' :: tail =>
      match _hc : continuation? tail with
      | some rest => basicLines? rest
      | none =>
        match _he : escape? tail with
        | some (c, rest) => (basicLines? rest).map fun (t, after) => (c :: t, after)
        | none => none
    | '\r' :: '\n' :: tail =>
      (basicLines? tail).map fun (t, after) => ('\r' :: '\n' :: t, after)
    | c :: tail =>
      if isPlain c || c = '\n' then (basicLines? tail).map fun (t, after) => (c :: t, after)
      else none
termination_by t.length
decreasing_by
  · have := length_of_continuation? _hc
    simp only [List.length_cons]
    omega
  · have := length_of_escape? _he
    simp only [List.length_cons]
    omega
  · simp only [List.length_cons]
    omega
  · simp

def literalLines? (t : Text) : Option (Text × Text) :=
  match closing? '\'' t with
  | some (more, rest) => some (more, rest)
  | none =>
    match t with
    | [] => none
    | '\r' :: '\n' :: tail =>
      (literalLines? tail).map fun (t, after) => ('\r' :: '\n' :: t, after)
    | c :: tail =>
      if isPlain c || c = '\n' then (literalLines? tail).map fun (t, after) => (c :: t, after)
      else none
termination_by t.length
decreasing_by
  · simp only [List.length_cons]
    omega
  · simp

/-- A line break right after the opening quotes is not part of the string. -/
def dropFirstBreak (t : Text) : Text := (lineBreak? t).elim t Prod.snd

def isWordChar (c : Char) : Bool := !(".=,[]\x7b\x7d \t\r\n#\"'".toList.contains c)

/-- The token at the front of a text; a comment gives none. -/
def token? : Text → Option (Option Token × Text)
  | [] => none
  | '.' :: rest => some (some .dot, rest)
  | '=' :: rest => some (some .equals, rest)
  | ',' :: rest => some (some .comma, rest)
  | '[' :: rest => some (some .openBracket, rest)
  | ']' :: rest => some (some .closeBracket, rest)
  | '\x7b' :: rest => some (some .openBrace, rest)
  | '\x7d' :: rest => some (some .closeBrace, rest)
  | '\n' :: rest => some (some .newline, rest)
  | '\r' :: '\n' :: rest => some (some .newline, rest)
  | '#' :: rest => some (none, rest.dropWhile isPlain)
  | '"' :: '"' :: '"' :: rest =>
    (basicLines? (dropFirstBreak rest)).map fun (t, after) => (some (.lines t), after)
  | '"' :: rest => (basic? rest).map fun (t, after) => (some (.line t), after)
  | '\'' :: '\'' :: '\'' :: rest =>
    (literalLines? (dropFirstBreak rest)).map fun (t, after) => (some (.lines t), after)
  | '\'' :: rest => (literal? rest).map fun (t, after) => (some (.line t), after)
  | c :: rest =>
    if isSpace c then
      some (some (.space (c :: rest.takeWhile isSpace)), rest.dropWhile isSpace)
    else if isWordChar c then
      some (some (.word (c :: rest.takeWhile isWordChar)), rest.dropWhile isWordChar)
    else none

theorem length_of_basic? {t s rest : Text} (h : basic? t = some (s, rest)) :
    rest.length < t.length := by
  fun_induction basic? t generalizing s rest with
  | case1 => simp at h
  | case2 => simp_all
  | case3 tail c after he ih =>
    obtain ⟨⟨s', r⟩, hr, heq⟩ := Option.map_eq_some_iff.1 h
    cases heq
    have h₁ := ih hr
    have h₂ := length_of_escape? he
    simp only [List.length_cons]
    omega
  | case4 => simp at h
  | case5 c tail _ _ _ ih =>
    obtain ⟨⟨s', r⟩, hr, heq⟩ := Option.map_eq_some_iff.1 h
    cases heq
    have := ih hr
    simp only [List.length_cons]
    omega
  | case6 => simp at h

theorem length_of_literal? {t s rest : Text} (h : literal? t = some (s, rest)) :
    rest.length < t.length := by
  fun_induction literal? t generalizing s rest with
  | case1 => simp at h
  | case2 => simp_all
  | case3 c tail _ _ ih =>
    obtain ⟨⟨s', r⟩, hr, heq⟩ := Option.map_eq_some_iff.1 h
    cases heq
    have := ih hr
    simp only [List.length_cons]
    omega
  | case4 => simp at h

theorem length_of_closing? {q : Char} {t s rest : Text} (h : closing? q t = some (s, rest)) :
    rest.length < t.length := by
  unfold closing? at h
  split at h
  · split at h
    · simp only [Option.some.injEq, Prod.mk.injEq] at h
      rw [← h.2]
      simp only [List.length_drop, List.length_cons]
      omega
    · simp at h
  · simp at h

theorem length_of_basicLines? {t s rest : Text} (h : basicLines? t = some (s, rest)) :
    rest.length < t.length := by
  fun_induction basicLines? t generalizing s rest with
  | case1 t more after hc => exact length_of_closing? (hc.trans h)
  | case2 => simp at h
  | case3 tail after hc _ ih =>
    have h₁ := ih h
    have h₂ := length_of_continuation? hc
    simp only [List.length_cons]
    omega
  | case4 tail _ c after he _ ih =>
    obtain ⟨⟨s', r⟩, hr, heq⟩ := Option.map_eq_some_iff.1 h
    cases heq
    have h₁ := ih hr
    have h₂ := length_of_escape? he
    simp only [List.length_cons]
    omega
  | case5 => simp at h
  | case6 tail _ ih =>
    obtain ⟨⟨s', r⟩, hr, heq⟩ := Option.map_eq_some_iff.1 h
    cases heq
    have := ih hr
    simp only [List.length_cons]
    omega
  | case7 c tail _ _ _ _ ih =>
    obtain ⟨⟨s', r⟩, hr, heq⟩ := Option.map_eq_some_iff.1 h
    cases heq
    have := ih hr
    simp only [List.length_cons]
    omega
  | case8 => simp at h

theorem length_of_literalLines? {t s rest : Text} (h : literalLines? t = some (s, rest)) :
    rest.length < t.length := by
  fun_induction literalLines? t generalizing s rest with
  | case1 t more after hc => exact length_of_closing? (hc.trans h)
  | case2 => simp at h
  | case3 tail _ ih =>
    obtain ⟨⟨s', r⟩, hr, heq⟩ := Option.map_eq_some_iff.1 h
    cases heq
    have := ih hr
    simp only [List.length_cons]
    omega
  | case4 c tail _ _ _ ih =>
    obtain ⟨⟨s', r⟩, hr, heq⟩ := Option.map_eq_some_iff.1 h
    cases heq
    have := ih hr
    simp only [List.length_cons]
    omega
  | case5 => simp at h

theorem length_dropFirstBreak_le (t : Text) : (dropFirstBreak t).length ≤ t.length := by
  unfold dropFirstBreak
  cases h : lineBreak? t with
  | none => simp
  | some p =>
    obtain ⟨taken, rest⟩ := p
    have := length_of_lineBreak? h
    simp only [Option.elim_some]
    omega

theorem length_of_token? {t rest : Text} {tok : Option Token} (h : token? t = some (tok, rest)) :
    rest.length < t.length := by
  unfold token? at h
  split at h
  all_goals try (simp only [Option.some.injEq, Prod.mk.injEq] at h; grind)
  · simp at h
  · next tail =>
    simp only [Option.some.injEq, Prod.mk.injEq] at h
    have := (List.dropWhile_sublist isPlain (l := tail)).length_le
    rw [← h.2]
    simp only [List.length_cons]
    omega
  · next tail =>
    obtain ⟨⟨s, r⟩, hr, heq⟩ := Option.map_eq_some_iff.1 h
    cases heq
    have h₁ := length_of_basicLines? hr
    have h₂ := length_dropFirstBreak_le tail
    simp only [List.length_cons]
    omega
  · obtain ⟨⟨s, r⟩, hr, heq⟩ := Option.map_eq_some_iff.1 h
    cases heq
    have := length_of_basic? hr
    simp only [List.length_cons]
    omega
  · next tail =>
    obtain ⟨⟨s, r⟩, hr, heq⟩ := Option.map_eq_some_iff.1 h
    cases heq
    have h₁ := length_of_literalLines? hr
    have h₂ := length_dropFirstBreak_le tail
    simp only [List.length_cons]
    omega
  · obtain ⟨⟨s, r⟩, hr, heq⟩ := Option.map_eq_some_iff.1 h
    cases heq
    have := length_of_literal? hr
    simp only [List.length_cons]
    omega
  · next c tail _ _ _ _ _ _ _ _ _ _ _ _ _ _ =>
    split at h
    · simp only [Option.some.injEq, Prod.mk.injEq] at h
      have := (List.dropWhile_sublist isSpace (l := tail)).length_le
      rw [← h.2]
      simp only [List.length_cons]
      omega
    · split at h
      · simp only [Option.some.injEq, Prod.mk.injEq] at h
        have := (List.dropWhile_sublist isWordChar (l := tail)).length_le
        rw [← h.2]
        simp only [List.length_cons]
        omega
      · simp at h

/-- The tokens of a text, if all of it is made of tokens. -/
def tokens? (t : Text) : Option (List Token) :=
  if t = [] then some []
  else match _h : token? t with
    | some (some tok, rest) => (tokens? rest).map (tok :: ·)
    | some (none, rest) => tokens? rest
    | none => none
termination_by t.length
decreasing_by all_goals exact length_of_token? _h

end Toml
end ThemedPrompt
