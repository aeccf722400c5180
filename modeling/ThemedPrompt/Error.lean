import ThemedPrompt.Files.Pathname
import ThemedPrompt.Theme.Document

/-! # Errors

What can go wrong where themes are accepted and files are read or written. Prompts and decoded
texts never fail.
-/
namespace ThemedPrompt

inductive Error
  | themeRejected (e : ThemeError)
  | themeUnreadable (path : Pathname) (reason : Text)
  | configUnreadable (path : Pathname) (reason : Text)
  | configNotFound
  | configInvalid (field reason : Text)
  | configMalformed (format : Text) (reason : Option Text)
  | configUnwritable (format reason : Text)
  | system (reason : Text)
deriving DecidableEq, Repr

namespace Error

/-- A sentence about a thing between quotes, and the reason. -/
def quoting (what : String) (thing reason : Text) : Text :=
  what.toList ++ " '".toList ++ thing ++ "': ".toList ++ reason

def message : Error → Text
  | .themeRejected e => "Failed to load theme: ".toList ++ e.message
  | .themeUnreadable path reason => quoting "Failed to read theme" path.display reason
  | .configUnreadable path reason => quoting "Failed to load config from" path.display reason
  | .configNotFound => "Configuration file not found".toList
  | .configInvalid field reason => quoting "Configuration validation failed for" field reason
  | .configMalformed format reason =>
    "Failed to parse ".toList ++ format ++ ThemeError.withReason " config" reason
  | .configUnwritable format reason =>
    "Failed to serialize config as ".toList ++ format ++ ": ".toList ++ reason
  | .system reason => "I/O error: ".toList ++ reason

/-- The message of the error that lies below. -/
def source? : Error → Option Text
  | .themeRejected e => some e.message
  | .system reason => some reason
  | _ => none

end Error
end ThemedPrompt
