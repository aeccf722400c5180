import Std.Time.Zoned
import ThemedPrompt.CommandLine.Run

/-! # The program

Looks at the files, the variables and the clock that a request needs, and then runs it.
-/
open ThemedPrompt

/-- The file at a path, if there is one that can be read. -/
def fetch (files : FileTree) (p : Pathname) : IO FileTree := do
  let some t := p.text? | return files
  try
    let content ← IO.FS.readBinFile (String.ofList t)
    return files.place (files.start p.isAbsolute) (.file content.toList) p.names
  catch _ => return files

def readVariables : IO (List (Text × Bytes)) := do
  let names := ["HOME", "SHELL", "USER", "USERNAME", "USERPROFILE", "WSL_DISTRO_NAME",
    "XDG_CONFIG_HOME"]
  let found ← names.mapM fun name => do
    let value ← IO.getEnv name
    return value.map fun v => (name.toList, Utf8.encode v.toList)
  return found.filterMap id

def readHostName : IO (Option Text) := do
  try
    let name ← IO.FS.readFile "/proc/sys/kernel/hostname"
    return some (Text.trimBy Char.isWhitespace name.toList)
  catch _ => return none

def readClock : IO Moment := do
  let now ← Std.Time.PlainDateTime.now
  return {
    year := now.year.toInt
    month := now.month.val.toNat
    day := now.day.val.toNat
    hour := now.hour.val.toNat
    minute := now.minute.val.toNat
    second := now.second.val.toNat }

/-- A tree that holds the working directory alone, or nothing if that is gone. -/
def readWorkingDirectory : IO FileTree := do
  try
    let directory := Pathname.ofText (← IO.currentDir).toString.toList
    return FileTree.place ⟨directory.names, []⟩ [] .directory directory.names
  catch _ => return ⟨[[]], []⟩

/-- A session that holds what a request may look at. -/
def openSession (r : CommandLine.Request) : IO Session := do
  let environment : Environment :=
    { bindings := ← readVariables, hostName := ← readHostName }
  let tree ← readWorkingDirectory
  let candidates := (environment.search tree.workingPath).candidates.map Prod.fst
  let files ← (r.config.elim candidates (fun p => [p])).foldlM fetch tree
  let session : Session := { files := files, environment := environment, now := ← readClock }
  let theme := match CommandLine.loadConfig session r.config with
    | .ok (c, _) => CommandLine.themePath? c r.command
    | .error _ => none
  let files ← theme.toList.foldlM fetch files
  let input ← match r.command with
    | .decode _ => (← IO.getStdin).readBinToEnd
    | _ => pure ByteArray.empty
  return { session with files := files, input := input.toList }

/-- The session of a command line that makes no request is empty. -/
def main (arguments : List String) : IO UInt32 := do
  let arguments := arguments.map String.toList
  let session ← match CommandLine.parse arguments with
    | .ok r => openSession r
    | .error _ => pure ⟨⟨[], []⟩, {}, ← readClock, []⟩
  let outcome := CommandLine.execute session arguments
  IO.print (String.ofList outcome.output)
  IO.eprint (String.ofList outcome.complaint)
  return outcome.exitCode.toUInt32
