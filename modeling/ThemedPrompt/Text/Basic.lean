/-! # Text as a list of characters

Everything that is read, cut or written is a list of characters, so that a rule
about text is a rule about lists.
-/
namespace ThemedPrompt

abbrev Text := List Char

namespace Text

/-- The digit of a number below ten. -/
def digit (n : Nat) : Char := Char.ofNat (48 + n)

def digitValue (c : Char) : Nat := c.toNat - 48

/-- The decimal digits of a number, without leading zeros. -/
def ofNat (n : Nat) : Text :=
  if n < 10 then [digit n] else ofNat (n / 10) ++ [digit (n % 10)]

def ofInt : Int → Text
  | .ofNat n => ofNat n
  | .negSucc n => '-' :: ofNat (n + 1)

def ofBool (b : Bool) : Text := if b then "true".toList else "false".toList

/-- The number written by a list of decimal digits. -/
def natValue (digits : Text) : Nat := digits.foldl (fun n c => 10 * n + digitValue c) 0

/-- Decimal digits with zeros in front up to the given width. -/
def padded (width n : Nat) : Text :=
  List.replicate (width - (ofNat n).length) '0' ++ ofNat n

/-- What follows `start` at the front of a text. -/
def after? : (start t : Text) → Option Text
  | [], t => some t
  | _ :: _, [] => none
  | s :: ss, c :: cs => if s = c then after? ss cs else none

/-- Cuts a text at the first place where `brace` stands twice in a row. -/
def cutAtPair? (brace : Char) : Text → Option (Text × Text)
  | [] => none
  | [_] => none
  | c :: d :: rest =>
    if c = brace ∧ d = brace then some ([], rest)
    else (cutAtPair? brace (d :: rest)).map fun (before, after) => (c :: before, after)

/-- Cutting loses nothing but the pair. -/
theorem append_of_cutAtPair? {brace : Char} {t before after : Text}
    (h : cutAtPair? brace t = some (before, after)) : t = before ++ brace :: brace :: after := by
  fun_induction cutAtPair? brace t generalizing before with
  | case1 => simp at h
  | case2 => simp at h
  | case3 c d rest hb =>
    obtain ⟨rfl, rfl⟩ := hb
    simp_all
  | case4 c d rest _ ih =>
    simp only [Option.map_eq_some_iff, Prod.mk.injEq, Prod.exists] at h
    obtain ⟨b, a, hcut, rfl, rfl⟩ := h
    simp [ih hcut]

/-- The text without the characters of a class at its end. -/
def dropEnd (p : Char → Bool) (t : Text) : Text := (t.reverse.dropWhile p).reverse

/-- The text without the characters of a class at its two ends. -/
def trimBy (p : Char → Bool) (t : Text) : Text := dropEnd p (t.dropWhile p)

/-- The pieces between the elements of a class; one more than there are such elements. -/
def splitBy {α : Type} (p : α → Bool) : List α → List (List α)
  | [] => [[]]
  | c :: cs =>
    if p c then [] :: splitBy p cs
    else match splitBy p cs with
      | piece :: pieces => (c :: piece) :: pieces
      | [] => [[c]]

/-- The texts in order, with a separator between neighbours. -/
def join (separator : Text) : List Text → Text
  | [] => []
  | [t] => t
  | t :: u :: rest => t ++ separator ++ join separator (u :: rest)

/-- What is to hold of the characters below 128 can be checked one by one. -/
theorem of_ascii {P : Char → Prop} (h : ∀ n < 128, P (Char.ofNat n)) {c : Char}
    (hc : c.toNat < 128) : P c := by
  have hchar := h c.toNat hc
  rwa [Char.ofNat_toNat] at hchar

end Text
end ThemedPrompt
