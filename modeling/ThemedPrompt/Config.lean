import ThemedPrompt.Context
import ThemedPrompt.Error
import ThemedPrompt.Prompt

/-! # Configurations

Which theme file to load, the fallback prompt, how much to log, and what to set in the context.
-/
namespace ThemedPrompt

structure Config where
  themePath : Option Pathname := none
  fallback : Text := Prompt.defaultFallback
  logLevel : Text := "info".toList
  context : Update := {}
deriving DecidableEq, Repr

namespace Config

/-- The formats of configuration files, in the order in which they are looked for. -/
inductive Format
  | toml
  | json
deriving DecidableEq, Repr

namespace Format

def all : List Format := [.toml, .json]

def name : Format → Text
  | .toml => "TOML".toList
  | .json => "JSON".toList

def fileName : Format → Pathname
  | .toml => Pathname.ofText "config.toml".toList
  | .json => Pathname.ofText "config.json".toList

/-- A file is in JSON if its extension says so. -/
def ofPath (p : Pathname) : Format :=
  if p.extension? = some (Utf8.encode "json".toList) then .json else .toml

end Format

/-- Neither the fallback prompt nor the theme path, if there is one, may be empty. -/
def check (c : Config) : Except Error Unit :=
  if c.fallback = [] then
    .error (.configInvalid "fallback_prompt".toList "Fallback prompt cannot be empty".toList)
  else if c.themePath.any Pathname.isEmpty then
    .error (.configInvalid "theme_path".toList "Theme path cannot be empty".toList)
  else .ok ()

end Config
end ThemedPrompt
