import ThemedPrompt.Context.Document
import ThemedPrompt.Prompt
import ThemedPrompt.Sgr.Run
import ThemedPrompt.Theme.Document

/-! # Engines

An engine holds a theme, a context and a fallback prompt. Operations change the theme or the
context, or only look.
-/
namespace ThemedPrompt

structure Engine where
  theme : Option Theme := none
  context : Context := {}
  fallback : Text := Prompt.defaultFallback
deriving Repr

namespace Engine

/-- An engine without a theme whose context is the default one with an update merged in. -/
def configured (fallback : Text) (update : Update) : Engine where
  context := Context.merge {} update
  fallback := fallback

def setTheme (e : Engine) (t : Theme) : Engine := { e with theme := some t }

def update (e : Engine) (u : Update) : Engine := { e with context := e.context.merge u }

/-- A rejected theme leaves the engine as it was. -/
def install (e : Engine) (t : Except ThemeError Theme) : Engine :=
  match t with
  | .ok t => e.setTheme t
  | .error _ => e

def prompt (e : Engine) (now : Moment) : Prompt := Prompt.render e.fallback e.theme e.context now

def info? (e : Engine) : Option Theme.Info := e.theme.map Theme.info

inductive Operation
  | loadText (json : Text)
  | loadDocument (d : Document)
  | setTheme (t : Theme)
  | update (u : Update)
  | updateLeniently (d : Document)
  | render (now : Moment)
  | decode (t : Text)
  | readTheme
  | readInfo
  | readContext

inductive Answer
  | done
  | loaded (result : Except ThemeError Unit)
  | prompt (p : Prompt)
  | runs (runs : List Run)
  | theme (t : Option Theme)
  | info (i : Option Theme.Info)
  | context (c : Context)

def perform (e : Engine) : Operation → Engine × Answer
  | .loadText json =>
    let t := Theme.ofText json
    (e.install t, .loaded (t.map fun _ => ()))
  | .loadDocument d =>
    let t := Theme.ofDocument d
    (e.install t, .loaded (t.map fun _ => ()))
  | .setTheme t => (e.setTheme t, .done)
  | .update u => (e.update u, .done)
  | .updateLeniently d => (e.update (Update.ofDocument d), .done)
  | .render now => (e, .prompt (e.prompt now))
  | .decode t => (e, .runs (Sgr.decode t))
  | .readTheme => (e, .theme e.theme)
  | .readInfo => (e, .info e.info?)
  | .readContext => (e, .context e.context)

def run (e : Engine) (operations : List Operation) : Engine :=
  operations.foldl (fun e op => (e.perform op).1) e

end Engine
end ThemedPrompt
