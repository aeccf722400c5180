import ThemedPrompt.CommandLine.Run
import ThemedPrompt.Proofs.CommandLine.WrittenArguments
import ThemedPrompt.Proofs.Config.FirstFound

/-! # What rendering commands print

A rendering command and an engine that is started from the same configuration agree, also where both
have to do without it. Options add to this what stands in front of the configuration: each field of
the context is looked for in the options, in the configuration, in the environment and in the default
context, in this order.
-/
namespace ThemedPrompt

/-- The engine that a session starts from a file, or from what it finds. -/
def Session.start (s : Session) : Option Pathname → Except Error Engine
  | none => Engine.startFromSearch s.files s.environment
  | some p => Engine.startFromFile s.files p

namespace CommandLine

theorem bind_ok {ε α β : Type} (a : α) (f : α → Except ε β) : (Except.ok a >>= f) = f a := rfl

theorem eq_ok_of_mapError {ε ε' α : Type} {x : Except ε α} {f : ε → ε'} {a : α}
    (h : x.mapError f = .ok a) : x = .ok a := by
  cases x with
  | error e => cases h
  | ok b =>
    cases h
    rfl

/-- The error behind a failure, if the failure is that of a file. -/
def Failure.cause? : Failure → Option Error
  | .config _ e => some e
  | .theme _ e => some e
  | .input => none

/-- The first value that is given: by an option, by the configuration, by the environment. -/
def prevailing {α : Type} (option configured environment : Option α) (initial : α) : α :=
  ((option.or configured).or environment).getD initial

theorem prevailing_eq {α : Type} (option configured environment : Option α) (initial : α) :
    prevailing option configured environment initial =
      option.getD (configured.getD (environment.getD initial)) := by
  rw [prevailing, Option.getD_or, Option.getD_or]

/-- The context that options ask for, of a configuration and of the environment's context. No option
takes `root` away. -/
def RenderOptions.context (o : RenderOptions) (configured : Update) (environment : Context) :
    Context :=
  let initial : Context := {}
  let told {α : Type} (field : Context → α) : Option α :=
    if o.fromEnvironment then some (field environment) else none
  { userName := prevailing o.user configured.userName (told Context.userName) initial.userName
    hostName := prevailing o.host configured.hostName (told Context.hostName) initial.hostName
    shell := prevailing o.shell configured.shell (told Context.shell) initial.shell
    workingDirectory := prevailing o.workingDirectory configured.workingDirectory
      (told Context.workingDirectory) initial.workingDirectory
    home := prevailing o.home configured.home (told Context.home) initial.home
    system := prevailing none configured.system (told Context.system) initial.system
    wsl := prevailing none configured.wsl (told Context.wsl) initial.wsl
    root := o.root || prevailing none configured.root (told Context.root) initial.root
    code := prevailing o.code configured.code (told Context.code) initial.code }

/-- The configuration is merged once before the environment and once behind it, and only the second
time counts. -/
theorem engine_eq (s : Session) (c : Config) (o : RenderOptions) :
    engine s c o =
      { context := o.context c.context (s.environment.context s.files.workingPath)
        fallback := c.fallback } := by
  have hroot (b : Bool) : (if o.root = true then some true else none).getD b = (o.root || b) := by
    cases o.root <;> rfl
  cases henv : o.fromEnvironment with
  | false =>
    simp [engine, henv, Engine.ofConfig, Engine.configured, Engine.update, Context.merge,
      RenderOptions.update, RenderOptions.context, prevailing_eq, hroot]
  | true =>
    simp [engine, henv, Engine.ofConfig, Engine.configured, Engine.update, Context.merge,
      RenderOptions.update, RenderOptions.context, prevailing_eq, hroot, Update.ofContext]

/-- The theme at a path must load, where there is a path. -/
def themeAt (files : FileTree) : Option Pathname → Except Failure (Option Theme)
  | none => .ok none
  | some p => ((Theme.load files p).mapError (.theme p)).map some

theorem themeAt_of_readText {files : FileTree} {p : Pathname} {t : Text}
    (h : files.readText p = .ok t) :
    themeAt files (some p) =
      ((Theme.ofText t).mapError fun e => .theme p (.themeRejected e)).map some := by
  rw [themeAt, Theme.load, h]
  dsimp only
  cases Theme.ofText t <;> rfl

theorem render_eq (s : Session) (c : Config) (o : RenderOptions) :
    render s c o = (themeAt s.files (o.theme.or c.themePath)).map fun theme =>
      Prompt.render c.fallback theme
        (o.context c.context (s.environment.context s.files.workingPath)) s.now := by
  rw [render, engine_eq, themePath?]
  cases o.theme.or c.themePath with
  | none => rfl
  | some p =>
    simp only [themeAt]
    cases Theme.load s.files p with
    | error e => rfl
    | ok t => rfl

/-- What is printed of a prompt. -/
def RenderOptions.show (o : RenderOptions) (p : Prompt) : Text :=
  if o.parts then line (Json.pretty p.toDocument) else p.text

theorem run_render (s : Session) (config? : Option Pathname) (o : RenderOptions) :
    run s ⟨config?, .render o⟩ = do
      let (c, _) ← loadConfig s config?
      let theme ← themeAt s.files (o.theme.or c.themePath)
      return o.show (Prompt.render c.fallback theme
        (o.context c.context (s.environment.context s.files.workingPath)) s.now) := by
  rw [run]
  cases loadConfig s config? with
  | error f => rfl
  | ok loaded =>
    obtain ⟨c, e?⟩ := loaded
    rw [bind_ok, bind_ok]
    dsimp only
    rw [render_eq]
    cases themeAt s.files (o.theme.or c.themePath) with
    | error f => rfl
    | ok theme => rfl

/-- Without options, a command shows the prompt of the engine that starts, or fails with the error
that keeps the engine from starting. -/
theorem render_start (s : Session) (c : Config) :
    ((render s c {}).map Prompt.text).mapError Failure.cause? =
      ((Engine.start s.files c).map fun e => (e.prompt s.now).text).mapError some := by
  have hengine : engine s c {} = Engine.ofConfig c := rfl
  have hpath : themePath? c (.render {}) = c.themePath := rfl
  rw [render, hengine, hpath, Engine.start]
  cases c.themePath with
  | none => rfl
  | some p =>
    simp only [Engine.withThemeFrom]
    cases Theme.load s.files p with
    | error e => rfl
    | ok t => rfl

/-- The command and the engine each search for a configuration, and make do with the same one. -/
theorem startFromSearch_eq (files : FileTree) (env : Environment) :
    Engine.startFromSearch files env =
      Engine.start files (searchConfig files (env.search files.workingPath)).1 := by
  rw [Engine.startFromSearch, searchConfig, Environment.config]
  cases ((env.search files.workingPath).load files {}).2 <;> rfl

theorem run_start (s : Session) (config? : Option Pathname) :
    (run s ⟨config?, .render {}⟩).mapError Failure.cause? =
      ((s.start config?).map fun e => (e.prompt s.now).text).mapError some := by
  cases config? with
  | none =>
    rw [Session.start, startFromSearch_eq]
    exact render_start s _
  | some p =>
    rw [run, Session.start, Engine.startFromFile, loadConfig]
    cases Config.load s.files p with
    | error e => rfl
    | ok c => exact render_start s c

/-- What is printed, or complained about, is what the request comes to. -/
theorem execute_of_parse {arguments : List Text} {r : Request} (h : parse arguments = .ok r)
    (s : Session) :
    (∀ t, run s r = .ok t → execute s arguments = { exitCode := 0, output := t }) ∧
      ∀ f, run s r = .error f → execute s arguments =
        { exitCode := 1, complaint := line ("Error: ".toList ++ f.message) } := by
  constructor
  · intro t hrun
    rw [execute, h]
    simp only [hrun]
  · intro f hrun
    rw [execute, h]
    simp only [hrun]

/-- Without options, rendering prints the prompt of the engine that the session starts, and it fails
with the error of an engine that does not start. With options, each field of the context is that of
the option, of the configuration, of the environment if it is asked for, or of the default context;
the theme of the options stands in front of that of the configuration, and the fallback is that of
the configuration. Options are what the arguments say in any order, and the program prints all of
this, or it complains and prints nothing. -/
theorem run_render_follows_engine_and_layers (s : Session) :
    (∀ config?, (run s ⟨config?, .render {}⟩).mapError Failure.cause? =
      ((s.start config?).map fun e => (e.prompt s.now).text).mapError some) ∧
    (∀ config? o, run s ⟨config?, .render o⟩ = do
      let (c, _) ← loadConfig s config?
      let theme ← themeAt s.files (o.theme.or c.themePath)
      return o.show (Prompt.render c.fallback theme
        (o.context c.context (s.environment.context s.files.workingPath)) s.now)) ∧
    (∀ config? o (w : Spelling config? o), parse w.arguments = .ok ⟨config?, .render o⟩) ∧
    ∀ arguments config? o, parse arguments = .ok ⟨config?, .render o⟩ →
      (∀ t, run s ⟨config?, .render o⟩ = .ok t →
        execute s arguments = { exitCode := 0, output := t }) ∧
      ∀ f, run s ⟨config?, .render o⟩ = .error f →
        execute s arguments =
          { exitCode := 1, complaint := line ("Error: ".toList ++ f.message) } := by
  refine ⟨run_start s, run_render s, ?_, ?_⟩
  · intro config? o w
    exact w.parse_arguments
  · intro arguments config? o hparse
    exact execute_of_parse hparse s

def overriddenText : Text :=
  "theme_path = \"n.json\"\n[context]\nUserName = \"bo\"\nShell = \"fish\"\nPWD = \"/\"\n".toList

def overriddenConfig : Config where
  themePath := some (.ofText "n.json".toList)
  context :=
    { userName := some "bo".toList, shell := some "fish".toList, workingDirectory := some ['/'] }

/-- It shows the user and the host, the shell, the path, whether the user is root, and whether the
last command failed. -/
def overridingTheme : Text :=
  ("\x7b\"blocks\": [\x7b\"type\": \"prompt\", \"segments\": [\x7b\"type\": \"session\"\x7d, " ++
    "\x7b\"type\": \"shell\"\x7d, \x7b\"type\": \"path\"\x7d, \x7b\"type\": \"root\"\x7d, " ++
    "\x7b\"type\": \"exit\"\x7d]\x7d]\x7d").toList

/-- There is a configuration to ask for, whose theme is missing, and one to be found at home, which
does not pass. -/
def overriddenSession : Session where
  files :=
    let entry (name : String) (e : Entry) : Location × Entry :=
      ((Pathname.ofText name.toList).names, e)
    { workingDirectory := []
      entries := [entry "c.toml" (.file (Utf8.encode overriddenText)),
        entry "t.json" (.file (Utf8.encode overridingTheme)), entry "home" .directory,
        entry "home/ana" .directory, entry "home/ana/.poshterm" .directory,
        entry "home/ana/.poshterm/config.toml"
          (.file (Utf8.encode "fallback_prompt = \"\"".toList))] }
  environment :=
    { bindings := [("HOME".toList, Utf8.encode "/home/ana".toList),
        ("USER".toList, Utf8.encode "eve".toList), ("SHELL".toList, Utf8.encode "/bin/sh".toList)] }
  now := ⟨2024, 3, 7, 14, 5, 9⟩

def overriding : RenderOptions where
  theme := some (.ofText "t.json".toList)
  fromEnvironment := true
  host := some "box".toList
  shell := some "zsh".toList
  workingDirectory := some "/home/ana/x".toList
  code := some (-1)
  root := true

def overridingSpelling : Spelling (some (.ofText "c.toml".toList)) overriding :=
  .usual (by rintro p ⟨⟩; exact Pathname.spelled_ofText (by decide))
    (by rintro p ⟨⟩; exact Pathname.spelled_ofText (by decide))

def overridingArguments : List Text :=
  ["--config=c.toml".toList, "render".toList, "--theme=t.json".toList, "--from-env".toList,
    "--host=box".toList, "--shell=zsh".toList, "--pwd=/home/ana/x".toList, "--code=-1".toList,
    "--root".toList]

/-- The user is that of the configuration, the home directory that of the environment, and all else
that of the options. Without them, command and engine make do with the defaults. -/
theorem run_render_follows_engine_and_layers_overridden :
    execute overriddenSession overridingArguments =
      { exitCode := 0, output := "bo@boxZSH~/x⚡✗".toList } ∧
    searchConfig overriddenSession.files
      (overriddenSession.environment.search overriddenSession.files.workingPath) =
      ({}, some (.configInvalid "fallback_prompt".toList
        "Fallback prompt cannot be empty".toList)) ∧
    (overriddenSession.start none).map (·.context) = .ok {} ∧
    execute overriddenSession ["render".toList] = { exitCode := 0, output := "$ ".toList } := by
  obtain ⟨hstart, hoptions, hparse, hprinted⟩ :=
    run_render_follows_engine_and_layers overriddenSession
  have hspelling : parse overridingArguments =
      .ok ⟨some (.ofText "c.toml".toList), .render overriding⟩ := by
    have harguments : overridingSpelling.arguments = overridingArguments := by decide +kernel
    rw [← harguments]
    exact hparse _ _ overridingSpelling
  have hread : Config.read overriddenSession.files .toml (.ofText "c.toml".toList) =
      .ok overriddenConfig :=
    Config.read_of_holds ⟨_, overriddenText, rfl, Utf8.decode?_encode _, by decide +kernel⟩
  have hconfig : loadConfig overriddenSession (some (.ofText "c.toml".toList)) =
      .ok (overriddenConfig, none) := by
    have hformat : Config.Format.ofPath (.ofText "c.toml".toList) = .toml := rfl
    rw [loadConfig, Config.load, hformat, hread]
    rfl
  have htheme : overriddenSession.files.readText (.ofText "t.json".toList) = .ok overridingTheme := by
    have hfile : overriddenSession.files.read (.ofText "t.json".toList) =
        .ok (Utf8.encode overridingTheme) := rfl
    rw [FileTree.readText_of_read hfile, Utf8.decode?_encode]
    rfl
  have hrun : run overriddenSession ⟨some (.ofText "c.toml".toList), .render overriding⟩ =
      .ok "bo@boxZSH~/x⚡✗".toList := by
    have hpath : overriding.theme.or overriddenConfig.themePath = some (.ofText "t.json".toList) :=
      rfl
    rw [hoptions, hconfig, bind_ok]
    dsimp only
    rw [hpath, themeAt_of_readText htheme]
    decide +kernel
  have hplain : run overriddenSession ⟨none, .render {}⟩ = .ok "$ ".toList := by
    have hengine : ((overriddenSession.start none).map fun e =>
      (e.prompt overriddenSession.now).text) = .ok "$ ".toList := by decide +kernel
    have hshown := hstart none
    rw [hengine] at hshown
    exact eq_ok_of_mapError hshown
  exact ⟨(hprinted _ _ _ hspelling).1 _ hrun, by decide +kernel, by decide +kernel,
    (hprinted _ _ _ (hparse none {} (Spelling.usual (by simp) (by simp)))).1 _ hplain⟩

end CommandLine
end ThemedPrompt
