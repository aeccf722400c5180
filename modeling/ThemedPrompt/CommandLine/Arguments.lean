import ThemedPrompt.CommandLine.Request

/-! # Reading arguments

The arguments are read one by one. Options may stand before and after the command; what stands
after counts more. An option takes its value from the same argument or from the next one.
-/
namespace ThemedPrompt
namespace CommandLine

inductive Key
  | config
  | debug
  | help
  | version
  | theme
  | fromEnvironment
  | user
  | host
  | shell
  | workingDirectory
  | home
  | code
  | root
  | parts
  | html
  | strip
deriving DecidableEq, Repr

namespace Key

def long : Key → Text
  | .config => "config".toList
  | .debug => "debug".toList
  | .help => "help".toList
  | .version => "version".toList
  | .theme => "theme".toList
  | .fromEnvironment => "from-env".toList
  | .user => "user".toList
  | .host => "host".toList
  | .shell => "shell".toList
  | .workingDirectory => "pwd".toList
  | .home => "home".toList
  | .code => "code".toList
  | .root => "root".toList
  | .parts => "parts".toList
  | .html => "html".toList
  | .strip => "strip".toList

def short? : Key → Option Char
  | .config => some 'c'
  | .debug => some 'd'
  | .help => some 'h'
  | .version => some 'V'
  | .theme => some 't'
  | _ => none

inductive Kind
  | flag
  | path
  | text
  | integer
deriving DecidableEq, Repr

def kind : Key → Kind
  | .config => .path
  | .theme => .path
  | .user => .text
  | .host => .text
  | .shell => .text
  | .workingDirectory => .text
  | .home => .text
  | .code => .integer
  | _ => .flag

end Key

/-- A decimal number that may have a sign of either kind. -/
def integer? (t : Text) : Option Int :=
  let value (digits : Text) : Option Nat :=
    if digits ≠ [] ∧ digits.all Char.isDigit then some (Text.natValue digits) else none
  match t with
  | '-' :: digits => (value digits).map fun n : Nat => -(n : Int)
  | '+' :: digits => (value digits).map Int.ofNat
  | digits => (value digits).map Int.ofNat

def code? (t : Text) : Option Int32 := (integer? t).bind fun n => (Document.int n).int32?

/-- A path may not be empty, and a number must be one. -/
def Key.Kind.accepts : Kind → Text → Bool
  | .flag, t => t = []
  | .path, t => t ≠ []
  | .text, _ => true
  | .integer, t => (code? t).isSome

/-- Where an option stands: before the command, or after one. -/
inductive Level
  | program
  | render
  | decode
  | info
  | help
deriving DecidableEq, Repr

namespace Level

def keys : Level → List Key
  | .program => [.config, .debug, .help, .version]
  | .render => [.config, .debug, .help, .theme, .fromEnvironment, .user, .host, .shell,
    .workingDirectory, .home, .code, .root, .parts]
  | .decode => [.config, .debug, .help, .html, .strip]
  | .info => [.config, .debug, .help]
  | .help => []

def ofCommand? (name : Text) : Option Level :=
  if name = "render".toList then some .render
  else if name = "decode".toList then some .decode
  else if name = "info".toList then some .info
  else if name = "help".toList then some .help
  else none

def long? (level : Level) (name : Text) : Option Key := level.keys.find? fun k => k.long = name

def short? (level : Level) (c : Char) : Option Key := level.keys.find? fun k => k.short? = some c

end Level

/-- Options with their values, in reverse; flags have the empty value. -/
abbrev Given := List (Key × Text)

structure Progress where
  level : Level := .program
  pending : Option Key := none
  closed : Bool := false
  before : Given := []
  given : Given := []
  operands : List Text := []
deriving DecidableEq, Repr

namespace Progress

/-- An option has its value. It may not be given twice at a level. -/
def give (p : Progress) (key : Key) (value : Text) : Except Stop Progress :=
  match key with
  | .help => .error .help
  | .version => .error .version
  | key =>
    if (p.given.lookup key).isNone ∧ key.kind.accepts value then
      .ok { p with pending := none, given := (key, value) :: p.given }
    else .error .usage

/-- A name after two dashes, with its value after an equals sign. -/
def long (p : Progress) (t : Text) : Except Stop Progress :=
  match p.level.long? (t.takeWhile (· ≠ '=')), t.dropWhile (· ≠ '=') with
  | none, _ => .error .usage
  | some key, [] => if key.kind = .flag then p.give key [] else .ok { p with pending := some key }
  | some key, _ :: value => if key.kind = .flag then .error .usage else p.give key value

/-- Letters after a dash: flags, and at the end perhaps an option with its value. -/
def short (p : Progress) : Text → Except Stop Progress
  | [] => .ok p
  | c :: rest =>
    match p.level.short? c with
    | none => .error .usage
    | some key =>
      if key.kind = .flag then (p.give key []).bind fun p => p.short rest
      else match rest with
        | [] => .ok { p with pending := some key }
        | '=' :: value => p.give key value
        | value => p.give key value

/-- An argument that is no option: a command, or what the command is about. -/
def word (p : Progress) (t : Text) : Except Stop Progress :=
  match p.level with
  | .program =>
    match Level.ofCommand? t, p.closed with
    | some level, false => .ok { p with level := level, before := p.given, given := [] }
    | _, _ => .error .usage
  | .info =>
    if p.operands = [] ∧ t ≠ [] then .ok { p with operands := [t] } else .error .usage
  | .help => .ok { p with operands := p.operands ++ [t] }
  | _ => .error .usage

/-- Only numbers and a lone dash may start with a dash and be values. -/
def value (p : Progress) (key : Key) (t : Text) : Except Stop Progress :=
  match t with
  | '-' :: _ :: _ => if key.kind = .integer then p.give key t else .error .usage
  | _ => p.give key t

def step (p : Progress) (t : Text) : Except Stop Progress :=
  if p.level = .help ∨ p.closed then p.word t
  else match p.pending, t with
    | some key, t => p.value key t
    | none, ['-', '-'] => .ok { p with closed := true }
    | none, '-' :: '-' :: name => p.long name
    | none, '-' :: c :: letters => p.short (c :: letters)
    | none, t => p.word t

def renderOptions (given : Given) : RenderOptions where
  theme := (given.lookup .theme).map Pathname.ofText
  fromEnvironment := (given.lookup .fromEnvironment).isSome
  user := given.lookup .user
  host := given.lookup .host
  shell := given.lookup .shell
  workingDirectory := given.lookup .workingDirectory
  home := given.lookup .home
  code := (given.lookup .code).bind code?
  root := (given.lookup .root).isSome
  parts := (given.lookup .parts).isSome

/-- HTML and plain text exclude each other. -/
def decodeForm? (given : Given) : Option DecodeForm :=
  match (given.lookup .html).isSome, (given.lookup .strip).isSome with
  | true, true => none
  | true, false => some .html
  | false, true => some .plain
  | false, false => some .runs

def command (p : Progress) : Except Stop Command :=
  match p.level, p.operands with
  | .render, _ => .ok (.render (renderOptions p.given))
  | .decode, _ => (decodeForm? p.given).elim (.error .usage) fun form => .ok (.decode form)
  | .info, [theme] => .ok (.info (.ofText theme))
  | .help, [] => .error .help
  | .help, [name] => .error (if (Level.ofCommand? name).isSome then .help else .usage)
  | _, _ => .error .usage

/-- The request, once all arguments are read and no value is missing. -/
def finish (p : Progress) : Except Stop Request :=
  if p.pending.isSome then .error .usage
  else p.command.map fun command =>
    { config := ((p.given ++ p.before).lookup .config).map Pathname.ofText, command := command }

end Progress

def parse (arguments : List Text) : Except Stop Request := do
  let p ← arguments.foldlM Progress.step {}
  p.finish

end CommandLine
end ThemedPrompt
