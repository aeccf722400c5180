import ThemedPrompt.Text.Hex

/-! # Colours

A colour has three channels and is written as `#` and six lower-case hexadecimal digits.
-/
namespace ThemedPrompt

structure Rgb where
  red : UInt8
  green : UInt8
  blue : UInt8
deriving DecidableEq, Repr

namespace Rgb

def ofDigits? : Text → Option Rgb
  | [r₁, r₀, g₁, g₀, b₁, b₀] => do
    return ⟨← Text.byteOfHex? r₁ r₀, ← Text.byteOfHex? g₁ g₀, ← Text.byteOfHex? b₁ b₀⟩
  | _ => none

/-- Reads six digits of either case after a `#`. -/
def ofHashed? : Text → Option Rgb
  | '#' :: digits => ofDigits? digits
  | _ => none

/-- Reads six digits of either case, with or without one `#` in front. -/
def ofHex? : Text → Option Rgb
  | '#' :: digits => ofDigits? digits
  | digits => ofDigits? digits

def toHex (c : Rgb) : Text :=
  '#' :: (Text.hexByte c.red ++ Text.hexByte c.green ++ Text.hexByte c.blue)

end Rgb
end ThemedPrompt
