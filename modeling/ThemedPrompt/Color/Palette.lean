import ThemedPrompt.Color.Rgb

/-! # The colour table of terminals

Sixteen named colours, a cube of six levels a channel and twenty-four shades of grey.
-/
namespace ThemedPrompt
namespace Palette

/-- Black, red, green, yellow, blue, magenta, cyan and white, then their bright forms. -/
def named : List Rgb :=
  [⟨0x00, 0x00, 0x00⟩, ⟨0xcd, 0x31, 0x31⟩, ⟨0x0d, 0xbc, 0x79⟩, ⟨0xe5, 0xe5, 0x10⟩,
    ⟨0x24, 0x72, 0xc8⟩, ⟨0xbc, 0x3f, 0xbc⟩, ⟨0x11, 0xa8, 0xcd⟩, ⟨0xe5, 0xe5, 0xe5⟩,
    ⟨0x66, 0x66, 0x66⟩, ⟨0xf1, 0x4c, 0x4c⟩, ⟨0x23, 0xd1, 0x8b⟩, ⟨0xf5, 0xf5, 0x43⟩,
    ⟨0x3b, 0x8e, 0xea⟩, ⟨0xd6, 0x70, 0xd6⟩, ⟨0x29, 0xb8, 0xdb⟩, ⟨0xff, 0xff, 0xff⟩]

def cubeLevel (n : Nat) : UInt8 := if n = 0 then 0 else UInt8.ofNat (55 + 40 * n)

def grey (n : Nat) : Rgb :=
  let shade := UInt8.ofNat (8 + 10 * n)
  ⟨shade, shade, shade⟩

/-- The colour at an index below 256; in the cube red varies slowest. -/
def indexed? (n : Nat) : Option Rgb :=
  if n < 16 then named[n]?
  else if n < 232 then
    some ⟨cubeLevel ((n - 16) / 36), cubeLevel ((n - 16) / 6 % 6), cubeLevel ((n - 16) % 6)⟩
  else if n < 256 then some (grey (n - 232))
  else none

/-- The named colour of a foreground code (30–37, 90–97) or background code (40–47, 100–107). -/
def standard? (code : Nat) : Option Rgb :=
  if 30 ≤ code ∧ code ≤ 37 then named[code - 30]?
  else if 40 ≤ code ∧ code ≤ 47 then named[code - 40]?
  else if 90 ≤ code ∧ code ≤ 97 then named[code - 90 + 8]?
  else if 100 ≤ code ∧ code ≤ 107 then named[code - 100 + 8]?
  else none

end Palette
end ThemedPrompt
