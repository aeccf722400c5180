import ThemedPrompt.Context
import ThemedPrompt.Moment
import ThemedPrompt.Template.Render
import ThemedPrompt.Text.UpperCase
import ThemedPrompt.Theme

/-! # The content of segments

Each kind of segment has a record made from the context, and a template for segments that bring
none of their own.
-/
namespace ThemedPrompt

namespace Kind

def defaultTemplate : Kind → Text
  | .shell => " \x7b\x7b .Name \x7d\x7d ".toList
  | .path => " \x7b\x7b .Path \x7d\x7d ".toList
  | .git => " \x7b\x7b .HEAD \x7d\x7d ".toList
  | .time => " \x7b\x7b .currentTime \x7d\x7d ".toList
  | .session => " \x7b\x7b .UserName \x7d\x7d@\x7b\x7b .HostName \x7d\x7d ".toList
  | .user => " \x7b\x7b .UserName \x7d\x7d ".toList
  | .root => " ⚡ ".toList
  | .status | .exit =>
    " \x7b\x7b if .Error \x7d\x7d✗\x7b\x7b else \x7d\x7d✓\x7b\x7b end \x7d\x7d ".toList
  | .os => " \x7b\x7b .Icon \x7d\x7d ".toList
  | .text | .other _ => [' ']

open Template in
/-- The record of a kind; a root segment is hidden while the user is not root. -/
def record? (k : Kind) (c : Context) (now : Moment) : Option Record :=
  let unchanged : Value := .record [("Changed".toList, .bool false)]
  match k with
  | .shell =>
    some [("Name".toList, .text (Text.upper c.shell)), ("Version".toList, .text "7.4.0".toList)]
  | .path =>
    some [("Path".toList, .text c.displayPath), ("PWD".toList, .text c.workingDirectory)]
  | .git =>
    some [("HEAD".toList, .text "main".toList), ("Branch".toList, .text "main".toList),
      ("Working".toList, unchanged), ("Staging".toList, unchanged)]
  | .time =>
    some [("currentDate".toList, .text now.date), ("currentTime".toList, .text now.time)]
  | .session | .user =>
    some [("UserName".toList, .text c.userName), ("HostName".toList, .text c.hostName)]
  | .root => if c.root then some [] else none
  | .status | .exit =>
    some [("Code".toList, .int c.code.toInt), ("Error".toList, .bool (c.code ≠ 0))]
  | .os => some [("Icon".toList, .text "💻".toList), ("WSL".toList, .bool c.wsl)]
  | .text | .other _ => some []

end Kind

namespace Segment

/-- An empty template counts as none. -/
def effectiveTemplate (s : Segment) : Text :=
  match s.template with
  | some (c :: cs) => c :: cs
  | _ => s.kind.defaultTemplate

/-- The text of a segment; one without text is not shown. -/
def content (s : Segment) (c : Context) (now : Moment) : Text :=
  (s.kind.record? c now).elim [] (Template.render s.effectiveTemplate)

end Segment
end ThemedPrompt
