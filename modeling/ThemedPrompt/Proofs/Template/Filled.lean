import ThemedPrompt.Proofs.Template.Written
import ThemedPrompt.Template.Render

/-! # Filling written trees

A record decides the conditionals of a tree. What is left is literal text and paths, and the filled
template is their texts in order: a value is never read as a template.
-/
namespace ThemedPrompt
namespace Template

inductive Leaf
  | text (t : Text)
  | path (p : Path)

/-- The text of a value is put in as it is, and a path that leads nowhere has no text. -/
def Leaf.textIn (data : Record) : Leaf → Text
  | .text t => t
  | .path p =>
    match p.lookup data with
    | some v => v.toText
    | none => []

mutual

/-- What a node shows when every conditional shows the branch that its path decides. -/
def Node.leaves (data : Record) : Node → List Leaf
  | .literal t => [.text t]
  | .field p => [.path p]
  | .conditional p yes no =>
    if ∃ v ∈ p.lookup data, v.truthy = true then leavesAll data yes else leavesAll data no

def leavesAll (data : Record) : List Node → List Leaf
  | [] => []
  | node :: nodes => node.leaves data ++ leavesAll data nodes

end

theorem Path.holdsIn_iff (p : Path) (data : Record) :
    p.holdsIn data = true ↔ ∃ v ∈ p.lookup data, v.truthy = true := by
  rw [holdsIn]
  cases p.lookup data with
  | none => simp
  | some v => simp

theorem Path.textIn_eq (p : Path) (data : Record) : p.textIn data = (Leaf.path p).textIn data := by
  rw [textIn, Leaf.textIn]
  cases p.lookup data with
  | none => rfl
  | some v => rfl

mutual

theorem Node.fill_eq_leaves (data : Record) (node : Node) :
    node.fill data = (node.leaves data).flatMap (Leaf.textIn data) := by
  cases node with
  | literal t => simp [Node.fill, Node.leaves, Leaf.textIn]
  | field p => simp [Node.fill, Node.leaves, Path.textIn_eq]
  | conditional p yes no =>
    rw [Node.fill, Node.leaves]
    by_cases h : ∃ v ∈ p.lookup data, v.truthy = true
    · rw [if_pos h, if_pos ((Path.holdsIn_iff p data).2 h)]
      exact fillAll_eq_leavesAll data yes
    · rw [if_neg h, if_neg (fun hp => h ((Path.holdsIn_iff p data).1 hp))]
      exact fillAll_eq_leavesAll data no

theorem fillAll_eq_leavesAll (data : Record) (nodes : List Node) :
    fillAll data nodes = (leavesAll data nodes).flatMap (Leaf.textIn data) := by
  cases nodes with
  | nil => rfl
  | cons node nodes =>
    rw [fillAll, leavesAll, List.flatMap_append, Node.fill_eq_leaves data node,
      fillAll_eq_leavesAll data nodes]

end

/-- Every tree of the language is read back from each way of writing it out, and filled with the
texts of its leaves. -/
theorem parse_and_render_written {nodes : List Node} {ts : List Token} (h : Written nodes ts) :
    parse (ts.flatMap Token.source) = nodes ∧
      ∀ data, render (ts.flatMap Token.source) data =
        Text.trim ((leavesAll data nodes).flatMap (Leaf.textIn data)) := by
  have hparse := parse_written h
  refine ⟨hparse, ?_⟩
  intro data
  rw [render, hparse, fillAll_eq_leavesAll]

def nestedTree : List Node :=
  [.literal "\x7d\x7d ".toList,
    .conditional ⟨"Code".toList, none⟩
      [.conditional ⟨"Env".toList, some "Root".toList⟩ [.literal "#".toList] [],
        .field ⟨"User".toList, none⟩]
      [.literal "ok".toList]]

def nestedTokens : List Token :=
  [.text "\x7d\x7d ".toList, .tag "if .Code".toList, .tag " if\t.Env.Root".toList, .text "#".toList,
    .tag "end".toList, .tag "  .User".toList, .tag "else ".toList, .text "ok".toList,
    .tag " end ".toList]

theorem written_nested : Written nestedTree nestedTokens := by
  have hcode : Path.Named ⟨"Code".toList, none⟩ := by decide +kernel
  have hroot : Path.Named ⟨"Env".toList, some "Root".toList⟩ := by decide +kernel
  have huser : Path.Named ⟨"User".toList, none⟩ := by decide +kernel
  have hopener : (Tag.ifTag ⟨"Code".toList, none⟩).IsWritten "if .Code".toList :=
    ⟨hcode, [' '], by decide, by decide, [], [], by decide, by decide, by decide +kernel⟩
  have hinner : (Tag.ifTag ⟨"Env".toList, some "Root".toList⟩).IsWritten " if\t.Env.Root".toList :=
    ⟨hroot, ['\t'], by decide, by decide, [' '], [], by decide, by decide, by decide +kernel⟩
  have hend : Tag.endTag.IsWritten "end".toList := ⟨[], [], by decide, by decide, by decide +kernel⟩
  have hfield : (Tag.field ⟨"User".toList, none⟩).IsWritten "  .User".toList :=
    ⟨huser, [' ', ' '], [], by decide, by decide, by decide +kernel⟩
  have helse : Tag.elseTag.IsWritten "else ".toList :=
    ⟨[], [' '], by decide, by decide, by decide +kernel⟩
  have hclose : Tag.endTag.IsWritten " end ".toList :=
    ⟨[' '], [' '], by decide, by decide, by decide +kernel⟩
  have hhash : Written [.literal "#".toList] [.text "#".toList] :=
    .literal (by decide +kernel) (by decide +kernel) (by simp) .nil
  have hok : Written [.literal "ok".toList] [.text "ok".toList] :=
    .literal (by decide +kernel) (by decide +kernel) (by simp) .nil
  have hyes := Written.ifThen hinner hhash hend (.field hfield .nil)
  have hall := Written.ifElse hopener hyes helse hok hclose .nil
  exact .literal (by decide +kernel) (by decide +kernel) (by rintro next ⟨⟩; trivial) hall

/-- A value that looks like a tag stays as it is. -/
theorem parse_and_render_nested :
    Written nestedTree nestedTokens ∧
      nestedTokens.flatMap Token.source = ("\x7d\x7d \x7b\x7bif .Code\x7d\x7d" ++
        "\x7b\x7b if\t.Env.Root\x7d\x7d#\x7b\x7bend\x7d\x7d\x7b\x7b  .User\x7d\x7d" ++
        "\x7b\x7belse \x7d\x7dok\x7b\x7b end \x7d\x7d").toList ∧
      parse (nestedTokens.flatMap Token.source) = nestedTree ∧
      render (nestedTokens.flatMap Token.source)
        [("Code".toList, .int 1), ("User".toList, .text "\x7b\x7b.Code\x7d\x7d".toList)] =
          "\x7d\x7d \x7b\x7b.Code\x7d\x7d".toList := by
  refine ⟨written_nested, by decide +kernel, (parse_and_render_written written_nested).1, ?_⟩
  exact ((parse_and_render_written written_nested).2 _).trans (by decide +kernel)

end Template
end ThemedPrompt
