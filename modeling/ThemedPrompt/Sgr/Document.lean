import ThemedPrompt.Document
import ThemedPrompt.Sgr.Run

/-! # Runs as documents -/
namespace ThemedPrompt

def Style.toDocument (s : Style) : Document :=
  let color (c : Option Text) : Document := c.elim .null .text
  .record [("foreground".toList, color s.foreground), ("background".toList, color s.background),
    ("bold".toList, .bool s.bold), ("italic".toList, .bool s.italic),
    ("underline".toList, .bool s.underline)]

def Run.toDocument (r : Run) : Document :=
  .record [("content".toList, .text r.content), ("style".toList, r.style.toDocument)]

end ThemedPrompt
