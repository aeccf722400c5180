import ThemedPrompt.Sgr.Run

/-! # Runs as HTML

A run with a style is a `span` element with an inline style, one without is plain text.
-/
namespace ThemedPrompt
namespace Html

def escapeChar : Char → Text
  | '&' => "&amp;".toList
  | '<' => "&lt;".toList
  | '>' => "&gt;".toList
  | '"' => "&quot;".toList
  | '\'' => "&#39;".toList
  | c => [c]

def escape (t : Text) : Text := t.flatMap escapeChar

def css (s : Style) : Text :=
  (s.foreground.elim [] fun c => "color: ".toList ++ c ++ [';'])
    ++ (s.background.elim [] fun c => "background-color: ".toList ++ c ++ [';'])
    ++ (if s.bold then "font-weight: bold;".toList else [])
    ++ (if s.italic then "font-style: italic;".toList else [])
    ++ (if s.underline then "text-decoration: underline;".toList else [])

def ofRun (r : Run) : Text :=
  if css r.style = [] then escape r.content
  else "<span style=\"".toList ++ css r.style ++ "\">".toList ++ escape r.content
    ++ "</span>".toList

def ofRuns (runs : List Run) : Text := runs.flatMap ofRun

end Html
end ThemedPrompt
