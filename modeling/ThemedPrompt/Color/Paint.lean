import ThemedPrompt.Sgr.Sequence
import ThemedPrompt.Sgr.Style

/-! # Painting text

Text is painted by the sequences of its background and foreground in front and a reset behind.
A colour that is not `#` and six digits has no sequence.
-/
namespace ThemedPrompt

/-- The colours a text is painted with, as they are written in a theme. -/
structure Paint where
  foreground : Option Text := none
  background : Option Text := none
deriving DecidableEq, Repr

namespace Paint

def opening (layer : Layer) (color : Text) : Text :=
  match Rgb.ofHashed? color with
  | some c => Sgr.write [layer.selector, 2, c.red.toNat, c.green.toNat, c.blue.toNat]
  | none => []

/-- The sequences that switch the colours on, background first. -/
def openings (p : Paint) : Text :=
  (p.background.elim [] (opening .background)) ++ (p.foreground.elim [] (opening .foreground))

/-- Empty text stays empty, and text without sequences in front gets no reset. -/
def apply (p : Paint) (t : Text) : Text :=
  if t = [] then []
  else if p.openings = [] then t
  else p.openings ++ t ++ Sgr.reset

end Paint
end ThemedPrompt
