import ThemedPrompt.Engine
import ThemedPrompt.Environment

/-! # Starting an engine

An engine is started from a configuration: one that is given, one in a file, or the one that
the session's directories hold. A theme that is asked for must load.
-/
namespace ThemedPrompt
namespace Engine

def withThemeFrom (e : Engine) (files : FileTree) : Option Pathname → Except Error Engine
  | none => .ok e
  | some p => (Theme.load files p).map e.setTheme

def ofConfig (c : Config) : Engine := configured c.fallback c.context

def start (files : FileTree) (c : Config) : Except Error Engine :=
  (ofConfig c).withThemeFrom files c.themePath

def startFromFile (files : FileTree) (p : Pathname) : Except Error Engine := do
  start files (← Config.load files p)

/-- A configuration that does not load is replaced by the default one. -/
def startFromSearch (files : FileTree) (env : Environment) : Except Error Engine :=
  let c := match env.config files with
    | .ok c => c
    | .error _ => {}
  start files c

end Engine
end ThemedPrompt
