import ThemedPrompt.Text.Basic

/-! # UTF-8

Bytes are read as text strictly, or leniently with a replacement character for each
ill-formed part.
-/
namespace ThemedPrompt

abbrev Bytes := List UInt8

namespace Utf8

def encode (t : Text) : Bytes := t.flatMap String.utf8EncodeChar

/-- The text that the bytes encode, unless they are ill-formed. -/
def decode? (bytes : Bytes) : Option Text :=
  bytes.toByteArray.utf8Decode?.map Array.toList

theorem decode?_encode (t : Text) : decode? (encode t) = some t := by
  have h : (encode t).toByteArray = t.utf8Encode := rfl
  simp [decode?, h, List.utf8Decode?_utf8Encode]

/-- The lengths of the parts of a sequence that starts with a lead byte: the range
of its second byte, and how many plain continuation bytes may follow that one. -/
def lead? (b : UInt8) : Option (UInt8 × UInt8 × Nat) :=
  if 0xc2 ≤ b ∧ b ≤ 0xdf then some (0x80, 0xbf, 0)
  else if b = 0xe0 then some (0xa0, 0xbf, 1)
  else if b = 0xed then some (0x80, 0x9f, 1)
  else if 0xe1 ≤ b ∧ b ≤ 0xef then some (0x80, 0xbf, 1)
  else if b = 0xf0 then some (0x90, 0xbf, 2)
  else if 0xf1 ≤ b ∧ b ≤ 0xf3 then some (0x80, 0xbf, 2)
  else if b = 0xf4 then some (0x80, 0x8f, 2)
  else none

def isContinuation (b : UInt8) : Bool := 0x80 ≤ b && b ≤ 0xbf

/-- The longest front of the bytes after a lead byte that could still belong to a character. -/
def continuations (b : UInt8) (rest : Bytes) : Nat :=
  match lead? b, rest with
  | some (low, high, more), second :: others =>
    if low ≤ second ∧ second ≤ high then 1 + ((others.take more).takeWhile isContinuation).length
    else 0
  | _, _ => 0

/-- Reads the bytes as text; each longest ill-formed part becomes one U+FFFD. -/
def decodeLossy : Bytes → Text
  | [] => []
  | b :: rest =>
    if b < 0x80 then Char.ofNat b.toNat :: decodeLossy rest
    else
      let n := continuations b rest
      (match decode? (b :: rest.take n) with
        | some t => t
        | none => ['\uFFFD']) ++ decodeLossy (rest.drop n)
termination_by bytes => bytes.length
decreasing_by all_goals simp only [List.length_cons, List.length_drop]; omega

end Utf8
end ThemedPrompt
