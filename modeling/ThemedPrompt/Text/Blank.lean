import ThemedPrompt.Text.Basic

/-! # Blank characters

The characters with the Unicode property White_Space, as inclusive ranges of code points.
-/
namespace ThemedPrompt
namespace Text

def blankRanges : List (Nat × Nat) :=
  [(0x09, 0x0d), (0x20, 0x20), (0x85, 0x85), (0xa0, 0xa0), (0x1680, 0x1680), (0x2000, 0x200a),
    (0x2028, 0x2029), (0x202f, 0x202f), (0x205f, 0x205f), (0x3000, 0x3000)]

def isBlank (c : Char) : Bool :=
  blankRanges.any fun (low, high) => low ≤ c.toNat && c.toNat ≤ high

/-- The text without blanks at its two ends. -/
def trim (t : Text) : Text := trimBy isBlank t

end Text
end ThemedPrompt
