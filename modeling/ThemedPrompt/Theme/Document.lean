import ThemedPrompt.Json.Reader
import ThemedPrompt.Theme

/-! # Themes as documents

Reading is lenient: a field that holds something else than it should is as good as absent, and
an item that is no block or segment is left out. Only a document that is no record is refused.
-/
namespace ThemedPrompt

/-- A field of a record, or its default if it is absent or does not fit. -/
def lenient {α : Type} (entries : List (Text × Document)) (name : String)
    (read : Document → Option α) (default : α) : α :=
  ((entries.reverse.lookup name.toList).bind read).getD default

def Alignment.ofName (name : Text) : Alignment :=
  if name = "right".toList then .right
  else if name = "newline".toList then .newline
  else .left

def Alignment.name : Alignment → Text
  | .left => "left".toList
  | .right => "right".toList
  | .newline => "newline".toList

/-- A name, or a record that holds null under a name. -/
def Alignment.ofDocument? : Document → Option Alignment
  | .text name => some (ofName name)
  | .record [(name, .null)] => some (ofName name)
  | _ => none

/-- The items of a list that can be read, in order. -/
def itemsOf? {α : Type} (read : Document → Option α) : Document → Option (List α)
  | .list items => some (items.filterMap read)
  | _ => none

namespace Segment

def fieldNames : List Text :=
  ["type".toList, "template".toList, "foreground".toList, "background".toList,
    "leading_diamond".toList, "trailing_diamond".toList, "powerline_symbol".toList]

/-- Any record is a segment, and so is a list with no more items than a segment has fields. -/
def ofDocument? (d : Document) : Option Segment :=
  (d.entries? .entries fieldNames).map fun entries =>
    let text (name : String) : Option Text := lenient entries name (·.text?.map some) none
    { kind := lenient entries "type" (·.text?.map Kind.ofName) (.other [])
      template := text "template"
      foreground := text "foreground"
      background := text "background"
      leadingDiamond := text "leading_diamond"
      trailingDiamond := text "trailing_diamond"
      powerlineSymbol := text "powerline_symbol" }

def toDocument (s : Segment) : Document :=
  let field (name : String) (value : Option Text) : List (Text × Document) :=
    (value.map fun t => (name.toList, .text t)).toList
  .record (("type".toList, .text s.kind.name) :: field "template" s.template
    ++ field "foreground" s.foreground ++ field "background" s.background
    ++ field "leading_diamond" s.leadingDiamond ++ field "trailing_diamond" s.trailingDiamond
    ++ field "powerline_symbol" s.powerlineSymbol)

end Segment

namespace Block

def fieldNames : List Text :=
  ["type".toList, "alignment".toList, "newline".toList, "segments".toList]

/-- Any record is a block, and so is a list with no more items than a block has fields. -/
def ofDocument? (d : Document) : Option Block :=
  (d.entries? .entries fieldNames).map fun entries =>
    { kind := lenient entries "type" Document.text? []
      alignment := lenient entries "alignment" Alignment.ofDocument? .left
      newline := lenient entries "newline" Document.bool? false
      segments := lenient entries "segments" (itemsOf? Segment.ofDocument?) [] }

def toDocument (b : Block) : Document :=
  .record [("type".toList, .text b.kind), ("alignment".toList, .text b.alignment.name),
    ("newline".toList, .bool b.newline),
    ("segments".toList, .list (b.segments.map Segment.toDocument))]

end Block

inductive ThemeError
  | malformed (reason : Option Text)
  | notARecord (got : Text)
  | misshapen (reason : Text)
deriving DecidableEq, Repr

namespace ThemeError

/-- A reason is added after a colon where there is one. -/
def withReason (what : String) (reason : Option Text) : Text :=
  what.toList ++ reason.elim [] fun r => ": ".toList ++ r

def message : ThemeError → Text
  | .malformed reason => withReason "malformed theme JSON" reason
  | .notARecord got => "theme must be a JSON object, got ".toList ++ got
  | .misshapen reason => withReason "invalid theme structure" (some reason)

end ThemeError

namespace Theme

/-- The names and colours of a palette; entries that hold no text are left out. -/
def paletteOf? : Document → Option (List (Text × Text))
  | .record entries => some (entries.filterMap fun (name, d) => d.text?.map (name, ·))
  | _ => none

def versionOf? : Document → Option Document
  | .null => none
  | d => some d

def ofEntries (entries : List (Text × Document)) : Theme where
  version := lenient entries "version" (fun d => some (versionOf? d)) none
  blocks := lenient entries "blocks" (fun d => some (itemsOf? Block.ofDocument? d)) none
  palette := lenient entries "palette" (fun d => some (paletteOf? d)) none

def ofDocument : Document → Except ThemeError Theme
  | .record entries => .ok (ofEntries entries)
  | .null => .error (.notARecord "null".toList)
  | .bool _ => .error (.notARecord "a boolean".toList)
  | .int _ => .error (.notARecord "a number".toList)
  | .float _ => .error (.notARecord "a number".toList)
  | .nonFinite => .error (.notARecord "a number".toList)
  | .text _ => .error (.notARecord "a string".toList)
  | .list _ => .error (.notARecord "an array".toList)
  | .unreadable => .error (.malformed none)

def ofText (t : Text) : Except ThemeError Theme :=
  match Json.read? t with
  | some d => ofDocument d
  | none => .error (.malformed none)

def toDocument (t : Theme) : Document :=
  let field {α : Type} (name : String) (write : α → Document) (value : Option α) :
      List (Text × Document) :=
    (value.map fun v => (name.toList, write v)).toList
  .record (field "version" id t.version
    ++ field "blocks" (fun bs => .list (bs.map Block.toDocument)) t.blocks
    ++ field "palette" (fun ps => .record (ps.map fun (name, c) => (name, .text c))) t.palette)

def Info.toDocument (i : Info) : Document :=
  .record [("version".toList, .text i.version), ("blockCount".toList, .int i.blockCount),
    ("segmentCount".toList, .int i.segmentCount), ("hasPalette".toList, .bool i.hasPalette)]

end Theme
end ThemedPrompt
