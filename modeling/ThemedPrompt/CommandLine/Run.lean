import ThemedPrompt.CommandLine.Arguments
import ThemedPrompt.Html
import ThemedPrompt.Sgr.Document
import ThemedPrompt.Startup

/-! # Running a command

A request is carried out in a session. It prints a text, or it fails and prints nothing.
-/
namespace ThemedPrompt

structure Session where
  files : FileTree
  environment : Environment
  now : Moment
  input : Bytes := []

namespace CommandLine

inductive Failure
  | config (path : Pathname) (e : Error)
  | theme (path : Pathname) (e : Error)
  | input
deriving DecidableEq, Repr

def Failure.message : Failure → Text
  | .config path e =>
    "failed to load config ".toList ++ path.display ++ ": ".toList ++ e.message
  | .theme path e => "failed to load theme ".toList ++ path.display ++ ": ".toList ++ e.message
  | .input => "failed to read stdin: ".toList ++ FileError.invalidUtf8.message

/-- What a search finds. Its error is handed back to be logged, with the default configuration. -/
def searchConfig (files : FileTree) (s : Search) : Config × Option Error :=
  match (s.load files {}).2 with
  | .ok c => (c, none)
  | .error e => ({}, some e)

/-- A configuration that is asked for must load. -/
def loadConfig (s : Session) : Option Pathname → Except Failure (Config × Option Error)
  | some p => do
    let c ← (Config.load s.files p).mapError (Failure.config p)
    return (c, none)
  | none => return searchConfig s.files (s.environment.search s.files.workingPath)

/-- The engine before a theme is set. What the configuration sets in the context holds against
the environment, and the options hold against both. -/
def engine (s : Session) (c : Config) (o : RenderOptions) : Engine :=
  let e := Engine.ofConfig c
  let e :=
    if o.fromEnvironment then
      (e.update (.ofContext (s.environment.context s.files.workingPath))).update c.context
    else e
  e.update o.update

/-- The theme of the options holds against that of the configuration. -/
def themePath? (c : Config) : Command → Option Pathname
  | .render o => o.theme.or c.themePath
  | .decode _ => none
  | .info theme => some theme

def render (s : Session) (c : Config) (o : RenderOptions) : Except Failure Prompt := do
  let e := engine s c o
  match themePath? c (.render o) with
  | none => return e.prompt s.now
  | some p =>
    let t ← (Theme.load s.files p).mapError (Failure.theme p)
    return (e.setTheme t).prompt s.now

def line (t : Text) : Text := t ++ ['\n']

def decode (s : Session) (form : DecodeForm) : Except Failure Text :=
  match Utf8.decode? s.input with
  | none => .error .input
  | some t =>
    .ok (match form with
      | .plain => Sgr.strip t
      | .html => line (Html.ofRuns (Sgr.decode t))
      | .runs => line (Json.pretty (.list ((Sgr.decode t).map Run.toDocument))))

def info (s : Session) (theme : Pathname) : Except Failure Text := do
  let t ← (Theme.load s.files theme).mapError (Failure.theme theme)
  return line (Json.pretty t.info.toDocument)

/-- What a request prints. Its configuration is loaded first, whatever the command is. -/
def run (s : Session) (r : Request) : Except Failure Text := do
  let (c, _) ← loadConfig s r.config
  match r.command with
  | .render o =>
    let p ← render s c o
    return if o.parts then line (Json.pretty p.toDocument) else p.text
  | .decode form => decode s form
  | .info theme => info s theme

/-- How a run ends: its exit code, what it prints, and what it complains about. -/
structure Outcome where
  exitCode : UInt8
  output : Text := []
  complaint : Text := []
deriving DecidableEq, Repr

def versionText : Text := "poshterm 0.1.0".toList

def usageText : Text :=
  "Usage: poshterm [--config CONFIG] [--debug] <render|decode|info|help> [OPTIONS]".toList

def execute (s : Session) (arguments : List Text) : Outcome :=
  match parse arguments with
  | .error .usage => { exitCode := 2, complaint := line usageText }
  | .error .help => { exitCode := 0, output := line usageText }
  | .error .version => { exitCode := 0, output := line versionText }
  | .ok r =>
    match run s r with
    | .ok t => { exitCode := 0, output := t }
    | .error e => { exitCode := 1, complaint := line ("Error: ".toList ++ e.message) }

end CommandLine
end ThemedPrompt
