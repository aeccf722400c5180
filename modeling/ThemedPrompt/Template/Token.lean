import ThemedPrompt.Template.Tag

/-! # Tokens of templates

A template is cut into texts and tags. A pair of opening braces is part of a text if it is
never closed, or if another pair opens before the closing one.
-/
namespace ThemedPrompt
namespace Template

inductive Token
  | text (t : Text)
  | tag (inner : Text)
deriving DecidableEq, Repr

/-- The text of a tag with its braces. -/
def tagSource (inner : Text) : Text := '{' :: '{' :: (inner ++ ['}', '}'])

def Token.source : Token → Text
  | .text t => t
  | .tag inner => tagSource inner

def textToken (t : Text) : List Token := if t = [] then [] else [.text t]

/-- What the front of a template starts with. -/
inductive Opening
  | unclosed
  | nested (before lead rest : Text)
  | tag (before inner rest : Text)

/-- The first pair of opening braces of a template, up to the next closing pair. -/
def opening (t : Text) : Opening :=
  match Text.cutAtPair? '{' t with
  | none => .unclosed
  | some (before, after) =>
    match Text.cutAtPair? '}' after with
    | none => .unclosed
    | some (inner, rest) =>
      match Text.cutAtPair? '{' inner with
      | some (lead, tail) => .nested before lead ('{' :: '{' :: (tail ++ '}' :: '}' :: rest))
      | none => .tag before inner rest

theorem eq_of_opening_nested {t before lead rest : Text} (h : opening t = .nested before lead rest) :
    t = before ++ '{' :: '{' :: (lead ++ rest) := by
  unfold opening at h
  repeat' split at h
  all_goals simp only [reduceCtorEq, Opening.nested.injEq] at h
  next h₁ _ _ _ h₂ _ _ _ h₃ =>
    obtain ⟨rfl, rfl, rfl⟩ := h
    rw [Text.append_of_cutAtPair? h₁, Text.append_of_cutAtPair? h₂, Text.append_of_cutAtPair? h₃]
    simp

theorem eq_of_opening_tag {t before inner rest : Text} (h : opening t = .tag before inner rest) :
    t = before ++ (tagSource inner ++ rest) := by
  unfold opening at h
  repeat' split at h
  all_goals simp only [reduceCtorEq, Opening.tag.injEq] at h
  next h₁ _ _ _ h₂ _ h₃ =>
    obtain ⟨rfl, rfl, rfl⟩ := h
    rw [Text.append_of_cutAtPair? h₁, Text.append_of_cutAtPair? h₂]
    simp [tagSource]

def tokens (t : Text) : List Token :=
  match _h : opening t with
  | .unclosed => textToken t
  | .nested before lead rest => .text (before ++ '{' :: '{' :: lead) :: tokens rest
  | .tag before inner rest => textToken before ++ .tag inner :: tokens rest
termination_by t.length
decreasing_by
  · rw [eq_of_opening_nested _h]
    simp only [List.length_append, List.length_cons]
    omega
  · rw [eq_of_opening_tag _h]
    simp only [tagSource, List.length_append, List.length_cons]
    omega

end Template
end ThemedPrompt
