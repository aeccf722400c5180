import ThemedPrompt.Document
import ThemedPrompt.Template.Tree

/-! # Values and trees of templates as documents -/
namespace ThemedPrompt
namespace Template

mutual

/-- Null, lists and numbers with a fraction are no values. -/
def Value.ofDocument? : Document → Option Value
  | .text t => some (.text t)
  | .int n => some (.int n)
  | .bool b => some (.bool b)
  | .record entries => (fieldsOfEntries? entries).map .record
  | _ => none

def fieldsOfEntries? : List (Text × Document) → Option Record
  | [] => some []
  | (name, d) :: rest =>
    match Value.ofDocument? d, fieldsOfEntries? rest with
    | some v, some fields => some ((name, v) :: fields)
    | _, _ => none

end

def Record.ofDocument? : Document → Option Record
  | .record entries => fieldsOfEntries? entries
  | _ => none

def Path.toDocument (p : Path) : Document := .list ((p.name :: p.member.toList).map .text)

mutual

def Node.toDocument : Node → Document
  | .literal t => .record [("literal".toList, .text t)]
  | .field p => .record [("field".toList, p.toDocument)]
  | .conditional p yes no =>
    .record [("if".toList, p.toDocument), ("then".toList, .list (documentsOf yes)),
      ("else".toList, .list (documentsOf no))]

def documentsOf : List Node → List Document
  | [] => []
  | node :: nodes => node.toDocument :: documentsOf nodes

end

end Template
end ThemedPrompt
