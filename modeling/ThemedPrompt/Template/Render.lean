import ThemedPrompt.Template.Tree

/-! # Filling templates

Values are inserted as they are: what they hold is never read as a template.
-/
namespace ThemedPrompt
namespace Template

mutual

def Node.fill (data : Record) : Node → Text
  | .literal t => t
  | .field p => p.textIn data
  | .conditional p yes no => if p.holdsIn data then fillAll data yes else fillAll data no

def fillAll (data : Record) : List Node → Text
  | [] => []
  | node :: nodes => node.fill data ++ fillAll data nodes

end

/-- The filled template without blanks at its two ends. -/
def render (t : Text) (data : Record) : Text := Text.trim (fillAll data (parse t))

end Template
end ThemedPrompt
