import ThemedPrompt.Error
import ThemedPrompt.Files.Tree

/-! # Theme files -/
namespace ThemedPrompt

def Theme.load (files : FileTree) (p : Pathname) : Except Error Theme :=
  match files.readText p with
  | .error e => .error (.themeUnreadable p e.message)
  | .ok t => (Theme.ofText t).mapError Error.themeRejected

end ThemedPrompt
