import ThemedPrompt.Template.Tree

/-! # Steps of the descent

A branch of a conditional and a whole template read a text, a field and a conditional alike; they
differ at an `else` and an `end`.
-/
namespace ThemedPrompt
namespace Template

/-- Reads texts, fields and conditionals after nodes in reverse. -/
structure Reads {α : Type} (f : List Node → List Token → α) : Prop where
  text : ∀ nodes t ts, f nodes (.text t :: ts) = f (pushLiteral nodes t) ts
  field : ∀ {inner p}, Tag.ofInner inner = .field p → ∀ nodes ts,
    f nodes (.tag inner :: ts) = f (.field p :: nodes) ts
  conditional : ∀ {inner p}, Tag.ofInner inner = .ifTag p → ∀ nodes {ts read rest},
    (conditional inner p ts).val = (read, rest) →
      f nodes (.tag inner :: ts) = f (read.reverse ++ nodes) rest

theorem reads_branch : Reads fun nodes ts => (branch nodes ts).val := by
  constructor
  · intro nodes t ts
    rw [branch]
    rfl
  · intro inner p h nodes ts
    rw [branch, h]
    rfl
  · intro inner p h nodes ts read rest hread
    rw [branch, h]
    dsimp only
    generalize conditional inner p ts = sequel at hread ⊢
    obtain ⟨sequel, hlength⟩ := sequel
    cases hread
    rfl

theorem reads_sequence : Reads sequence := by
  constructor
  · intro nodes t ts
    rw [sequence]
  · intro inner p h nodes ts
    rw [sequence, h]
  · intro inner p h nodes ts read rest hread
    rw [sequence, h]
    dsimp only
    generalize conditional inner p ts = sequel at hread ⊢
    obtain ⟨sequel, hlength⟩ := sequel
    cases hread
    rfl

section
variable {yes no read : List Node} {inner elseInner : Text} {ts rest after : List Token}

theorem branch_nil (nodes : List Node) : (branch nodes []).val = (nodes.reverse, .exhausted) := by
  rw [branch]

theorem branch_unknown (h : Tag.ofInner inner = .unknown) (nodes : List Node) (ts : List Token) :
    (branch nodes (.tag inner :: ts)).val = (branch (pushLiteral nodes (tagSource inner)) ts).val := by
  rw [branch, h]
  rfl

theorem branch_elseTag (h : Tag.ofInner inner = .elseTag) (nodes : List Node) (ts : List Token) :
    (branch nodes (.tag inner :: ts)).val = (nodes.reverse, .elseTag inner ts) := by
  rw [branch, h]

theorem branch_endTag (h : Tag.ofInner inner = .endTag) (nodes : List Node) (ts : List Token) :
    (branch nodes (.tag inner :: ts)).val = (nodes.reverse, .endTag ts) := by
  rw [branch, h]

theorem alternative_of_endTag (h : (branch [] ts).val = (read, .endTag rest)) (nodes : List Node) :
    (alternative nodes ts).val = (nodes.reverse ++ read, some rest) := by
  rw [alternative]
  generalize branch [] ts = b at h ⊢
  obtain ⟨b, hsize⟩ := b
  cases h
  rfl

theorem alternative_of_elseTag (h : (branch [] ts).val = (read, .elseTag inner rest))
    (nodes : List Node) : (alternative nodes ts).val =
      (alternative (pushLiteral (read.reverse ++ nodes) (tagSource inner)) rest).val := by
  rw [alternative]
  generalize branch [] ts = b at h ⊢
  obtain ⟨b, hsize⟩ := b
  cases h
  rfl

theorem alternative_of_exhausted (h : (branch [] ts).val = (read, .exhausted)) (nodes : List Node) :
    (alternative nodes ts).val = (nodes.reverse ++ read, none) := by
  rw [alternative]
  generalize branch [] ts = b at h ⊢
  obtain ⟨b, hsize⟩ := b
  cases h
  rfl

theorem conditional_of_endTag (h : (branch [] ts).val = (yes, .endTag rest)) (inner : Text)
    (p : Path) : (conditional inner p ts).val = ([.conditional p yes []], rest) := by
  rw [conditional]
  generalize branch [] ts = b at h ⊢
  obtain ⟨b, hsize⟩ := b
  cases h
  rfl

theorem conditional_of_elseTag (h : (branch [] ts).val = (yes, .elseTag elseInner rest))
    (hno : (alternative [] rest).val = (no, some after)) (inner : Text) (p : Path) :
    (conditional inner p ts).val = ([.conditional p yes no], after) := by
  rw [conditional]
  generalize branch [] ts = b at h ⊢
  obtain ⟨b, hsize⟩ := b
  cases h
  dsimp only
  generalize alternative [] rest = a at hno ⊢
  obtain ⟨a, hlength⟩ := a
  cases hno
  rfl

theorem conditional_of_unclosed (h : (branch [] ts).val = (yes, .elseTag elseInner rest))
    (hno : (alternative [] rest).val = (no, none)) (inner : Text) (p : Path) :
    (conditional inner p ts).val =
      (.literal (tagSource inner) :: (yes ++ .literal (tagSource elseInner) :: no), []) := by
  rw [conditional]
  generalize branch [] ts = b at h ⊢
  obtain ⟨b, hsize⟩ := b
  cases h
  dsimp only
  generalize alternative [] rest = a at hno ⊢
  obtain ⟨a, hlength⟩ := a
  cases hno
  rfl

theorem conditional_of_exhausted (h : (branch [] ts).val = (yes, .exhausted)) (inner : Text)
    (p : Path) : (conditional inner p ts).val = (.literal (tagSource inner) :: yes, []) := by
  rw [conditional]
  generalize branch [] ts = b at h ⊢
  obtain ⟨b, hsize⟩ := b
  cases h
  rfl

theorem sequence_nil (nodes : List Node) : sequence nodes [] = nodes.reverse := by
  rw [sequence]

theorem sequence_unknown (h : Tag.ofInner inner = .unknown) (nodes : List Node) (ts : List Token) :
    sequence nodes (.tag inner :: ts) = sequence (pushLiteral nodes (tagSource inner)) ts := by
  rw [sequence, h]

theorem sequence_stray (h : Tag.ofInner inner = .elseTag ∨ Tag.ofInner inner = .endTag)
    (nodes : List Node) (ts : List Token) : sequence nodes (.tag inner :: ts) =
      nodes.reverse ++ .literal (tagSource inner) :: sequence [] ts := by
  rcases h with h | h
  · rw [sequence, h]
  · rw [sequence, h]

end

end Template
end ThemedPrompt
