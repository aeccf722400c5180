import ThemedPrompt.Color.Rgb

/-! # Hexadecimal colours

A colour that is read from six digits and written again is in the digits' lower case.
-/
namespace ThemedPrompt

namespace Text

def isHexDigit (c : Char) : Bool :=
  ('0' ≤ c && c ≤ '9') || ('a' ≤ c && c ≤ 'f') || ('A' ≤ c && c ≤ 'F')

def lower (t : Text) : Text := t.map Char.toLower

theorem toNat_lt_of_isHexDigit {c : Char} (hc : isHexDigit c = true) : c.toNat < 128 := by
  simp only [isHexDigit, Bool.or_eq_true, Bool.and_eq_true, decide_eq_true_eq] at hc
  rcases hc with (⟨_, h⟩ | ⟨_, h⟩) | ⟨_, h⟩
  · exact Nat.lt_of_le_of_lt h (by decide)
  · exact Nat.lt_of_le_of_lt h (by decide)
  · exact Nat.lt_of_le_of_lt h (by decide)

theorem hexValue?_of_isHexDigit {c : Char} (hc : isHexDigit c = true) :
    ∃ v < 16, hexValue? c = some v ∧ hexDigit v = c.toLower :=
  of_ascii (P := fun c => isHexDigit c = true →
    ∃ v < 16, hexValue? c = some v ∧ hexDigit v = c.toLower) (by decide)
    (toNat_lt_of_isHexDigit hc) hc

theorem hexValue?_of_not_isHexDigit {c : Char} (hc : isHexDigit c = false) :
    hexValue? c = none := by
  simp only [isHexDigit, Bool.or_eq_false_iff, Bool.and_eq_false_iff, decide_eq_false_iff_not] at hc
  obtain ⟨⟨h₁, h₂⟩, h₃⟩ := hc
  rw [hexValue?, if_neg (not_and_of_not_or_not h₁), if_neg (not_and_of_not_or_not h₂),
    if_neg (not_and_of_not_or_not h₃)]

/-- Two digits make a byte that is written with them in lower case; nothing else makes one. -/
theorem byteOfHex?_cases (high low : Char) :
    (∃ b, byteOfHex? high low = some b ∧ hexByte b = [high.toLower, low.toLower] ∧
      isHexDigit high = true ∧ isHexDigit low = true) ∨
    (byteOfHex? high low = none ∧ (isHexDigit high = false ∨ isHexDigit low = false)) := by
  cases hhigh : isHexDigit high with
  | false => exact .inr ⟨by simp [byteOfHex?, hexValue?_of_not_isHexDigit hhigh], .inl rfl⟩
  | true =>
    obtain ⟨h, hlt, hh, hwritten⟩ := hexValue?_of_isHexDigit hhigh
    cases hlow : isHexDigit low with
    | false => exact .inr ⟨by simp [byteOfHex?, hexValue?_of_not_isHexDigit hlow, hh], .inr rfl⟩
    | true =>
      obtain ⟨l, hlt', hl, hwritten'⟩ := hexValue?_of_isHexDigit hlow
      refine .inl ⟨UInt8.ofNat (16 * h + l), by simp [byteOfHex?, hh, hl], ?_, rfl, rfl⟩
      have hbyte : (UInt8.ofNat (16 * h + l)).toNat = 16 * h + l := by
        rw [UInt8.toNat_ofNat']
        omega
      have hdiv : (16 * h + l) / 16 = h := by omega
      have hmod : (16 * h + l) % 16 = l := by omega
      rw [hexByte, hbyte, hdiv, hmod, hwritten, hwritten']

end Text

namespace Rgb
open Text

/-- Whether a text is `#` and six hexadecimal digits. -/
def isHashed : Text → Bool
  | '#' :: digits => digits.length == 6 && digits.all isHexDigit
  | _ => false

theorem ofDigits?_map_toHex (digits : Text) : (ofDigits? digits).map toHex =
    if digits.length == 6 && digits.all isHexDigit then some ('#' :: lower digits) else none := by
  unfold ofDigits?
  split
  · next r₁ r₀ g₁ g₀ b₁ b₀ =>
    rcases byteOfHex?_cases r₁ r₀ with ⟨r, hr, hr', hr₁, hr₀⟩ | ⟨hr, hr'⟩
    · rcases byteOfHex?_cases g₁ g₀ with ⟨g, hg, hg', hg₁, hg₀⟩ | ⟨hg, hg'⟩
      · rcases byteOfHex?_cases b₁ b₀ with ⟨b, hb, hb', hb₁, hb₀⟩ | ⟨hb, hb'⟩
        · simp [hr, hg, hb, toHex, hr', hg', hb', hr₁, hr₀, hg₁, hg₀, hb₁, hb₀, lower]
        · rcases hb' with h | h <;> simp [hr, hg, hb, h]
      · rcases hg' with h | h <;> simp [hr, hg, h]
    · rcases hr' with h | h <;> simp [hr, h]
  · next hshape =>
    have hlength : digits.length ≠ 6 := by
      intro h
      match digits, h with
      | [r₁, r₀, g₁, g₀, b₁, b₀], _ => exact hshape r₁ r₀ g₁ g₀ b₁ b₀ rfl
    simp [hlength]

/-- Reading a colour and writing it again changes nothing but the case of its digits. -/
theorem ofHashed?_map_toHex (t : Text) :
    (ofHashed? t).map toHex = if isHashed t then some (lower t) else none := by
  unfold ofHashed?
  split
  · next digits => exact ofDigits?_map_toHex digits
  · next hshape =>
    have hno : isHashed t = false := by
      unfold isHashed
      split
      · next digits => exact absurd rfl (hshape digits)
      · rfl
    simp [hno]

end Rgb
end ThemedPrompt
