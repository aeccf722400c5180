import ThemedPrompt.Config

/-! # Requests

What a command line asks for.
-/
namespace ThemedPrompt
namespace CommandLine

structure RenderOptions where
  theme : Option Pathname := none
  fromEnvironment : Bool := false
  user : Option Text := none
  host : Option Text := none
  shell : Option Text := none
  workingDirectory : Option Text := none
  home : Option Text := none
  code : Option Int32 := none
  root : Bool := false
  parts : Bool := false
deriving DecidableEq, Repr

/-- What the options set in the context. They cannot take `root` away. -/
def RenderOptions.update (o : RenderOptions) : Update where
  userName := o.user
  hostName := o.host
  shell := o.shell
  workingDirectory := o.workingDirectory
  home := o.home
  root := if o.root then some true else none
  code := o.code

/-- How decoded text is shown. -/
inductive DecodeForm
  | runs
  | html
  | plain
deriving DecidableEq, Repr

inductive Command
  | render (options : RenderOptions)
  | decode (form : DecodeForm)
  | info (theme : Pathname)
deriving DecidableEq, Repr

structure Request where
  config : Option Pathname
  command : Command
deriving DecidableEq, Repr

/-- Why there is no request: the arguments make no sense, or they ask about the program. -/
inductive Stop
  | usage
  | help
  | version
deriving DecidableEq, Repr

end CommandLine
end ThemedPrompt
