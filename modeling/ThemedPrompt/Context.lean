import ThemedPrompt.Document

/-! # Contexts

What a prompt tells about: the user, the machine, the directory and the last command. An update
sets some fields of a context and keeps the others.
-/
namespace ThemedPrompt

structure Context where
  userName : Text := "user".toList
  hostName : Text := "localhost".toList
  shell : Text := "pwsh".toList
  workingDirectory : Text := "/home/user".toList
  home : Text := "/home/user".toList
  system : Text := "linux".toList
  wsl : Bool := false
  root : Bool := false
  code : Int32 := 0
deriving DecidableEq, Repr

structure Update where
  userName : Option Text := none
  hostName : Option Text := none
  shell : Option Text := none
  workingDirectory : Option Text := none
  home : Option Text := none
  system : Option Text := none
  wsl : Option Bool := none
  root : Option Bool := none
  code : Option Int32 := none
deriving DecidableEq, Repr

namespace Context

def merge (c : Context) (u : Update) : Context where
  userName := u.userName.getD c.userName
  hostName := u.hostName.getD c.hostName
  shell := u.shell.getD c.shell
  workingDirectory := u.workingDirectory.getD c.workingDirectory
  home := u.home.getD c.home
  system := u.system.getD c.system
  wsl := u.wsl.getD c.wsl
  root := u.root.getD c.root
  code := u.code.getD c.code

/-- The home directory without slashes at its end. -/
def homeStem (c : Context) : Text := Text.dropEnd (· = '/') c.home

/-- The working directory with the home directory in front shown as `~`. -/
def displayPath (c : Context) : Text :=
  if c.homeStem = [] then c.workingDirectory
  else match Text.after? c.homeStem c.workingDirectory with
    | some [] => ['~']
    | some ['/'] => ['~']
    | some ('/' :: rest) => '~' :: '/' :: rest
    | _ => c.workingDirectory

end Context

namespace Update

def isEmpty (u : Update) : Bool := u == {}

/-- The update that sets every field to that of a context. -/
def ofContext (c : Context) : Update where
  userName := some c.userName
  hostName := some c.hostName
  shell := some c.shell
  workingDirectory := some c.workingDirectory
  home := some c.home
  system := some c.system
  wsl := some c.wsl
  root := some c.root
  code := some c.code

end Update
end ThemedPrompt
