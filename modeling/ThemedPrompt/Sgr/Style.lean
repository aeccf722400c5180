import ThemedPrompt.Color.Palette

/-! # Styles and the codes that change them

The codes of a sequence are read as commands from left to right. A command for an extended
colour takes its arguments from the codes that follow it.
-/
namespace ThemedPrompt

/-- Where a colour is used. -/
inductive Layer
  | foreground
  | background
deriving DecidableEq, Repr

/-- The code that announces an extended colour. -/
def Layer.selector : Layer → Nat
  | .foreground => 38
  | .background => 48

/-- The look of a piece of text; a colour is the text it is written with. -/
structure Style where
  foreground : Option Text := none
  background : Option Text := none
  bold : Bool := false
  italic : Bool := false
  underline : Bool := false
deriving DecidableEq, Repr

namespace Style

def plain : Style := {}

def isPlain (s : Style) : Bool := s == plain

end Style

namespace Sgr

inductive Command
  | reset
  | bold (on : Bool)
  | italic (on : Bool)
  | underline (on : Bool)
  | color (layer : Layer) (value : Option Text)
deriving DecidableEq, Repr

namespace Command

/-- A palette index beyond the table gives no colour. -/
def indexed (layer : Layer) (n : Nat) : Command :=
  .color layer ((Palette.indexed? n).map Rgb.toHex)

/-- Channels above 255 count as 255. -/
def trueColor (layer : Layer) (r g b : Nat) : Command :=
  let channel (n : Nat) : UInt8 := UInt8.ofNat (min n 255)
  .color layer (some (Rgb.toHex ⟨channel r, channel g, channel b⟩))

/-- The command of a code that stands alone. -/
def ofCode? (code : Nat) : Option Command :=
  match code with
  | 0 => some .reset
  | 1 => some (.bold true)
  | 3 => some (.italic true)
  | 4 => some (.underline true)
  | 22 => some (.bold false)
  | 23 => some (.italic false)
  | 24 => some (.underline false)
  | 39 => some (.color .foreground none)
  | 49 => some (.color .background none)
  | n =>
    if (30 ≤ n ∧ n ≤ 37) ∨ (90 ≤ n ∧ n ≤ 97) then
      some (.color .foreground ((Palette.standard? n).map Rgb.toHex))
    else if (40 ≤ n ∧ n ≤ 47) ∨ (100 ≤ n ∧ n ≤ 107) then
      some (.color .background ((Palette.standard? n).map Rgb.toHex))
    else none

/-- Unknown codes give no command. A colour selector without all its arguments gives none
either, and what follows it is read as codes of its own. -/
def ofCodes : List Nat → List Command
  | [] => []
  | 38 :: 5 :: n :: rest => indexed .foreground n :: ofCodes rest
  | 38 :: 2 :: r :: g :: b :: rest => trueColor .foreground r g b :: ofCodes rest
  | 48 :: 5 :: n :: rest => indexed .background n :: ofCodes rest
  | 48 :: 2 :: r :: g :: b :: rest => trueColor .background r g b :: ofCodes rest
  | code :: rest => (ofCode? code).toList ++ ofCodes rest

def run (s : Style) : Command → Style
  | .reset => Style.plain
  | .bold on => { s with bold := on }
  | .italic on => { s with italic := on }
  | .underline on => { s with underline := on }
  | .color .foreground value => { s with foreground := value }
  | .color .background value => { s with background := value }

end Command
end Sgr

/-- The style after the codes of one sequence. -/
def Style.apply (s : Style) (codes : List Nat) : Style :=
  (Sgr.Command.ofCodes codes).foldl Sgr.Command.run s

end ThemedPrompt
