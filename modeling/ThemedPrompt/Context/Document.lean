import ThemedPrompt.Context

/-! # Contexts and updates as documents

An update is read in two ways. The strict way knows a second name for each field and refuses
what does not fit; the lenient way knows the main names only and skips what does not fit.
-/
namespace ThemedPrompt

namespace Context

/-- The names of the fields, each with its second name. -/
def fieldNames : List (Text × Text) :=
  [("UserName".toList, "user_name".toList), ("HostName".toList, "host_name".toList),
    ("Shell".toList, "shell".toList), ("PWD".toList, "pwd".toList), ("HOME".toList, "home".toList),
    ("OS".toList, "os".toList), ("WSL".toList, "wsl".toList), ("Root".toList, "root".toList),
    ("Code".toList, "code".toList)]

/-- A whole context: every field must be there, under its main name. -/
def ofDocument? (d : Document) : Option Context := do
  let entries ← d.entries? .entries (fieldNames.map Prod.fst)
  let field {α : Type} (name : String) (read : Document → Option α) : Option α :=
    Document.field? entries [name.toList] read none
  return {
    userName := ← field "UserName" Document.text?
    hostName := ← field "HostName" Document.text?
    shell := ← field "Shell" Document.text?
    workingDirectory := ← field "PWD" Document.text?
    home := ← field "HOME" Document.text?
    system := ← field "OS" Document.text?
    wsl := ← field "WSL" Document.bool?
    root := ← field "Root" Document.bool?
    code := ← field "Code" Document.int32? }

end Context

namespace Update

/-- The strict way. A null leaves its field unset. -/
def ofDocument? (unread : Document.Unread) (d : Document) : Option Update := do
  let entries ← d.entries? unread (Context.fieldNames.map Prod.fst)
  let field {α : Type} (name second : String) (read : Document → Option α) : Option (Option α) :=
    Document.field? entries [name.toList, second.toList] (Document.optional? read) (some none)
  return {
    userName := ← field "UserName" "user_name" Document.text?
    hostName := ← field "HostName" "host_name" Document.text?
    shell := ← field "Shell" "shell" Document.text?
    workingDirectory := ← field "PWD" "pwd" Document.text?
    home := ← field "HOME" "home" Document.text?
    system := ← field "OS" "os" Document.text?
    wsl := ← field "WSL" "wsl" Document.bool?
    root := ← field "Root" "root" Document.bool?
    code := ← field "Code" "code" Document.int32? }

/-- The lenient way. What is not a record sets nothing. -/
def ofDocument (d : Document) : Update :=
  let field {α : Type} (name : String) (read : Document → Option α) : Option α :=
    (d.get? name.toList).bind read
  { userName := field "UserName" Document.text?
    hostName := field "HostName" Document.text?
    shell := field "Shell" Document.text?
    workingDirectory := field "PWD" Document.text?
    home := field "HOME" Document.text?
    system := field "OS" Document.text?
    wsl := field "WSL" Document.bool?
    root := field "Root" Document.bool?
    code := field "Code" Document.int32? }

/-- The fields that are set, under their main names. -/
def toDocument (u : Update) : Document :=
  let field {α : Type} (name : String) (write : α → Document) (value : Option α) :
      List (Text × Document) :=
    (value.map fun v => (name.toList, write v)).toList
  .record (field "UserName" Document.text u.userName ++ field "HostName" Document.text u.hostName
    ++ field "Shell" Document.text u.shell ++ field "PWD" Document.text u.workingDirectory
    ++ field "HOME" Document.text u.home ++ field "OS" Document.text u.system
    ++ field "WSL" Document.bool u.wsl ++ field "Root" Document.bool u.root
    ++ field "Code" (fun n => Document.int n.toInt) u.code)

end Update

/-- All fields, under their main names. -/
def Context.toDocument (c : Context) : Document := (Update.ofContext c).toDocument

end ThemedPrompt
