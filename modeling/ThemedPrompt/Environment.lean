import ThemedPrompt.Config.Search
import ThemedPrompt.Theme.File

/-! # Environments

What a session tells about itself: its variables, whose values may be any bytes, the home
directory of the account, and the name of the machine. It gives a context, and the directories
in which to search for a configuration.
-/
namespace ThemedPrompt

structure Environment where
  bindings : List (Text × Bytes) := []
  accountHome : Option Pathname := none
  hostName : Option Text := none
deriving DecidableEq, Repr

namespace Environment

def bytes? (env : Environment) (name : String) : Option Bytes := env.bindings.lookup name.toList

/-- The value of a variable that holds text. -/
def text? (env : Environment) (name : String) : Option Text := (env.bytes? name).bind Utf8.decode?

def path? (env : Environment) (name : String) : Option Pathname := (env.bytes? name).map Pathname.mk

/-- `HOME` if it is not empty, or else the home directory of the account. -/
def home? (env : Environment) : Option Pathname :=
  ((env.path? "HOME").filter fun p => !p.isEmpty).or env.accountHome

/-- The last name in a path with slashes of either kind. -/
def programName (path : Text) : Text :=
  (path.reverse.takeWhile fun c => c ≠ '/' && c ≠ '\\').reverse

/-- The context of a session. Without a working directory the session is at home; what else it
does not tell is as in the default context. -/
def context (env : Environment) (workingDirectory : Option Pathname) : Context :=
  let initial : Context := {}
  let home := ((env.home?.map Pathname.display).or ((env.text? "HOME").or
    (env.text? "USERPROFILE"))).getD initial.home
  { userName := ((env.text? "USER").or (env.text? "USERNAME")).getD initial.userName
    hostName := env.hostName.getD initial.hostName
    shell := (((env.text? "SHELL").map programName).filter (· ≠ [])).getD initial.shell
    workingDirectory := (workingDirectory.map Pathname.display).getD home
    home := home
    system := "linux".toList
    wsl := (env.bytes? "WSL_DISTRO_NAME").isSome
    root := env.text? "USER" = some "root".toList
    code := 0 }

/-- The name of a configuration directory; hidden, it starts with a dot. -/
def directoryName : Pathname := Pathname.ofText "poshterm".toList

def hiddenName : Pathname := Pathname.ofText ".poshterm".toList

/-- Where configurations are kept: an absolute `XDG_CONFIG_HOME`, or `.config` at home. -/
def configHome? (env : Environment) : Option Pathname :=
  ((env.path? "XDG_CONFIG_HOME").filter Pathname.isAbsolute).or
    (env.home?.map (·.join (.ofText ".config".toList)))

/-- `XDG_CONFIG_HOME` is searched even if it is relative, and then the usual place, the home
directory and the working directory, as far as there are such. -/
def search (env : Environment) (workingDirectory : Option Pathname) : Search :=
  let named := (env.text? "XDG_CONFIG_HOME").map fun t => (Pathname.ofText t).join directoryName
  let usual := env.configHome?.map (·.join directoryName)
  { directories := named.toList ++ (usual.filter fun p => !named.any p.alike).toList
      ++ (env.home?.map (·.join hiddenName)).toList
      ++ (workingDirectory.map (·.join hiddenName)).toList }

/-- The configuration that the search finds, or the default one; an error if it finds one that
does not pass. -/
def config (env : Environment) (files : FileTree) : Except Error Config :=
  ((env.search files.workingPath).load files {}).2

end Environment
end ThemedPrompt
