import ThemedPrompt.Config
import ThemedPrompt.Context.Document
import ThemedPrompt.Json.Reader
import ThemedPrompt.Json.Writer
import ThemedPrompt.Toml.Reader
import ThemedPrompt.Toml.Writer

/-! # Configurations as documents and texts

Every field has a default, and what does not fit is refused. A theme path can only be written
if it is text.
-/
namespace ThemedPrompt
namespace Config

def fieldNames : List Text :=
  ["theme_path".toList, "fallback_prompt".toList, "log_level".toList, "context".toList]

/-- Only the theme path may be null. -/
def ofDocument? (unread : Document.Unread) (d : Document) : Option Config := do
  let entries ← d.entries? unread fieldNames
  let field {α : Type} (name : String) (read : Document → Option α) (default : α) : Option α :=
    Document.field? entries [name.toList] read (some default)
  let initial : Config := {}
  return {
    themePath := ← field "theme_path"
      (Document.optional? fun d => d.text?.map Pathname.ofText) initial.themePath
    fallback := ← field "fallback_prompt" Document.text? initial.fallback
    logLevel := ← field "log_level" Document.text? initial.logLevel
    context := ← field "context" (Update.ofDocument? unread) initial.context }

/-- The theme path as an entry, if there is one. -/
def themeEntry? (c : Config) : Option (List (Text × Document)) :=
  match c.themePath with
  | none => some []
  | some p => p.text?.map fun t => [("theme_path".toList, .text t)]

def toEntries? (c : Config) : Option (List (Text × Document)) :=
  c.themeEntry?.map fun theme =>
    theme ++ [("fallback_prompt".toList, .text c.fallback), ("log_level".toList, .text c.logLevel),
      ("context".toList, c.context.toDocument)]

def ofText? (format : Format) (t : Text) : Option Config :=
  match format with
  | .toml => (Toml.read? t).bind (ofDocument? .items)
  | .json => (Json.parse? t).bind (ofDocument? .entries)

def toText? (format : Format) (c : Config) : Option Text :=
  c.toEntries?.map fun entries =>
    match format with
    | .toml => Toml.write entries
    | .json => Json.pretty (.record entries)

end Config
end ThemedPrompt
