import ThemedPrompt.Template.Token

/-! # Template trees

The tokens are read by recursive descent. Each function returns how many tokens are left, so
that the recursion ends. A conditional that is never closed, and an `else` or `end` that
belongs to none, is literal text.
-/
namespace ThemedPrompt
namespace Template

inductive Node
  | literal (t : Text)
  | field (p : Path)
  | conditional (p : Path) (yes no : List Node)
deriving Repr

/-- Adds literal text to nodes in reverse, joining it to a literal just before. -/
def pushLiteral (nodes : List Node) (t : Text) : List Node :=
  match nodes with
  | .literal last :: rest => .literal (last ++ t) :: rest
  | _ => .literal t :: nodes

/-- How a branch ended: at its `else` or `end`, with the tokens after it, or with the input. -/
inductive Ending
  | elseTag (inner : Text) (rest : List Token)
  | endTag (rest : List Token)
  | exhausted

/-- The tokens from the one that ended the branch. -/
def Ending.size : Ending → Nat
  | .elseTag _ rest => rest.length + 1
  | .endTag rest => rest.length + 1
  | .exhausted => 0

abbrev Branch (ts : List Token) := { r : List Node × Ending // r.2.size ≤ ts.length }

abbrev Sequel (ts : List Token) := { r : List Node × List Token // r.2.length ≤ ts.length }

/-- A branch that started a token earlier. -/
def Branch.extend {tok : Token} {ts rest : List Token} (b : Branch rest)
    (h : rest.length ≤ ts.length) : Branch (tok :: ts) :=
  ⟨b.val, by have := b.property; simp only [List.length_cons]; omega⟩

mutual

/-- Reads a branch of a conditional after the nodes that it begins with, in reverse. -/
def branch (nodes : List Node) : (ts : List Token) → Branch ts
  | [] => ⟨(nodes.reverse, .exhausted), by simp [Ending.size]⟩
  | .text t :: ts => (branch (pushLiteral nodes t) ts).extend (Nat.le_refl _)
  | .tag inner :: ts =>
    match Tag.ofInner inner with
    | .field p => (branch (.field p :: nodes) ts).extend (Nat.le_refl _)
    | .ifTag p =>
      let ⟨(read, rest), h⟩ := conditional inner p ts
      (branch (read.reverse ++ nodes) rest).extend h
    | .elseTag => ⟨(nodes.reverse, .elseTag inner ts), by simp [Ending.size]⟩
    | .endTag => ⟨(nodes.reverse, .endTag ts), by simp [Ending.size]⟩
    | .unknown => (branch (pushLiteral nodes (tagSource inner)) ts).extend (Nat.le_refl _)
termination_by ts => 3 * ts.length
decreasing_by all_goals simp only [List.length_cons] at *; omega

/-- Reads the branches of a conditional whose opening tag has been read. -/
def conditional (inner : Text) (p : Path) (ts : List Token) : Sequel ts :=
  match branch [] ts with
  | ⟨(yes, .endTag rest), h⟩ => ⟨([.conditional p yes []], rest), by simp [Ending.size] at h; simp; omega⟩
  | ⟨(yes, .elseTag elseInner rest), h⟩ =>
    have hrest : rest.length < ts.length := by simp [Ending.size] at h; omega
    match alternative [] rest with
    | ⟨(no, some after), h'⟩ =>
      ⟨([.conditional p yes no], after), by simp at h'; simp; omega⟩
    | ⟨(no, none), _⟩ =>
      ⟨(.literal (tagSource inner) :: (yes ++ .literal (tagSource elseInner) :: no), []), by simp⟩
  | ⟨(yes, .exhausted), _⟩ => ⟨(.literal (tagSource inner) :: yes, []), by simp⟩
termination_by 3 * ts.length + 2
decreasing_by all_goals omega

/-- Reads what follows the first `else`, where another `else` is literal text; gives the tokens
after the closing tag, if there is one. -/
def alternative (nodes : List Node) (ts : List Token) :
    { r : List Node × Option (List Token) // (r.2.getD []).length ≤ ts.length } :=
  match branch [] ts with
  | ⟨(read, .endTag rest), h⟩ =>
    ⟨(nodes.reverse ++ read, some rest), by simp [Ending.size] at h; simp; omega⟩
  | ⟨(read, .elseTag inner rest), h⟩ =>
    have hrest : rest.length < ts.length := by simp [Ending.size] at h; omega
    let ⟨r, h'⟩ := alternative (pushLiteral (read.reverse ++ nodes) (tagSource inner)) rest
    ⟨r, by omega⟩
  | ⟨(read, .exhausted), _⟩ => ⟨(nodes.reverse ++ read, none), by simp⟩
termination_by 3 * ts.length + 1
decreasing_by all_goals omega

end

/-- Reads a whole template after nodes in reverse. A stray `else` or `end` stands by itself. -/
def sequence (nodes : List Node) : List Token → List Node
  | [] => nodes.reverse
  | .text t :: ts => sequence (pushLiteral nodes t) ts
  | .tag inner :: ts =>
    match Tag.ofInner inner with
    | .field p => sequence (.field p :: nodes) ts
    | .ifTag p =>
      match conditional inner p ts with
      | ⟨(read, rest), _h⟩ => sequence (read.reverse ++ nodes) rest
    | .elseTag => nodes.reverse ++ .literal (tagSource inner) :: sequence [] ts
    | .endTag => nodes.reverse ++ .literal (tagSource inner) :: sequence [] ts
    | .unknown => sequence (pushLiteral nodes (tagSource inner)) ts
termination_by ts => ts.length
decreasing_by all_goals simp only [List.length_cons] at *; omega

/-- The tree of a template. Every text is a template. -/
def parse (t : Text) : List Node := sequence [] (tokens t)

end Template
end ThemedPrompt
