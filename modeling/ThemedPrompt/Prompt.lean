import ThemedPrompt.Color.Paint
import ThemedPrompt.Segment

/-! # Prompts

The visible segments of the prompt blocks of a theme, painted and put in a row.
-/
namespace ThemedPrompt

/-- A visible segment: its painted text, and the colours it was painted with. -/
structure Part where
  kind : Text
  text : Text
  paint : Paint
deriving DecidableEq, Repr

structure Prompt where
  text : Text
  parts : List Part
deriving DecidableEq, Repr

namespace Segment

def paint (s : Segment) (t : Theme) : Paint :=
  ⟨t.resolve s.foreground, t.resolve s.background⟩

/-- The texts of a visible segment in order. The symbol is left out on the right side. -/
def pieces (s : Segment) (alignment : Alignment) (content : Text) : List Text :=
  s.leadingDiamond.toList ++ (if alignment = .right then [] else s.powerlineSymbol.toList)
    ++ [content] ++ s.trailingDiamond.toList

def part? (s : Segment) (t : Theme) (alignment : Alignment) (c : Context) (now : Moment) :
    Option Part :=
  let content := s.content c now
  let paint := s.paint t
  if content = [] then none
  else some ⟨s.kind.name, (s.pieces alignment content).flatMap paint.apply, paint⟩

end Segment

namespace Block

def parts (b : Block) (t : Theme) (c : Context) (now : Moment) : List Part :=
  b.segments.filterMap fun s => s.part? t b.alignment c now

def text (b : Block) (t : Theme) (c : Context) (now : Moment) : Text :=
  (b.parts t c now).flatMap Part.text ++ if b.breaksLine then ['\n'] else []

end Block

namespace Prompt

def defaultFallback : Text := "$ ".toList

def plain (t : Text) : Prompt := ⟨t, []⟩

def ofBlocks (t : Theme) (blocks : List Block) (c : Context) (now : Moment) : Prompt :=
  let shown := blocks.filter Block.isPrompt
  ⟨shown.flatMap fun b => b.text t c now, shown.flatMap fun b => b.parts t c now⟩

/-- Without a theme, or a theme's blocks, the fallback is the prompt. -/
def render (fallback : Text) (theme : Option Theme) (c : Context) (now : Moment) : Prompt :=
  match theme with
  | none => plain fallback
  | some t => t.blocks.elim (plain fallback) fun blocks => ofBlocks t blocks c now

end Prompt

def Paint.toDocument (p : Paint) : Document :=
  let color (c : Option Text) : Document := c.elim .null .text
  .record [("foreground".toList, color p.foreground), ("background".toList, color p.background)]

def Part.toDocument (p : Part) : Document :=
  .record [("type".toList, .text p.kind), ("text".toList, .text p.text),
    ("style".toList, p.paint.toDocument)]

def Prompt.toDocument (p : Prompt) : Document :=
  .record [("prompt".toList, .text p.text), ("parts".toList, .list (p.parts.map Part.toDocument))]

end ThemedPrompt
