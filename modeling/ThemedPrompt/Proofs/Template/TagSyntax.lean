import ThemedPrompt.Proofs.Text.Cutting
import ThemedPrompt.Template.Token

/-! # The syntax of tags

A tag holds a path, `if` and a path, `else` or `end`, with blanks around it and at least one blank
behind `if`. A path is read back from what it is written as, and no tag holds a brace.
-/
namespace ThemedPrompt
namespace Template
open Text

def Blanks (t : Text) : Prop := ∀ c ∈ t, isBlank c = true

instance (t : Text) : Decidable (Blanks t) := List.decidableBAll _ t

/-- A path as it is written. -/
def Path.source (p : Path) : Text := '.' :: (p.name ++ p.member.elim [] ('.' :: ·))

/-- Whether the names of a path are made of letters, digits and underscores, one at least. -/
def Path.Named (p : Path) : Prop := isName p.name = true ∧ ∀ m ∈ p.member, isName m = true

instance (p : Path) : Decidable p.Named :=
  inferInstanceAs (Decidable (isName p.name = true ∧ ∀ m ∈ p.member, isName m = true))

/-- A word with any blanks at its two ends. -/
def Spaced (word inner : Text) : Prop :=
  ∃ left right, Blanks left ∧ Blanks right ∧ inner = left ++ (word ++ right)

def Tag.IsWritten : Tag → Text → Prop
  | .field p, inner => p.Named ∧ Spaced p.source inner
  | .ifTag p, inner =>
    p.Named ∧ ∃ gap, gap ≠ [] ∧ Blanks gap ∧ Spaced ('i' :: 'f' :: (gap ++ p.source)) inner
  | .elseTag, inner => Spaced ['e', 'l', 's', 'e'] inner
  | .endTag, inner => Spaced ['e', 'n', 'd'] inner
  | .unknown, _ => False

theorem toNat_lt_of_isNameChar {c : Char} (hc : isNameChar c = true) : c.toNat < 128 := by
  rcases Bool.or_eq_true_iff.1 hc with hc | hc
  · rcases Bool.or_eq_true_iff.1 hc with hletter | hdigit
    · rcases Bool.or_eq_true_iff.1 hletter with hupper | hlower
      · have hc : c.val ≤ 'Z'.val := (of_decide_eq_true hupper).2
        exact Nat.lt_of_le_of_lt hc (by decide)
      · have hc : c.val ≤ 'z'.val := of_decide_eq_true (Bool.and_eq_true_iff.1 hlower).2
        exact Nat.lt_of_le_of_lt hc (by decide)
    · have hc : c.val ≤ '9'.val := of_decide_eq_true (Bool.and_eq_true_iff.1 hdigit).2
      exact Nat.lt_of_le_of_lt hc (by decide)
  · obtain rfl := of_decide_eq_true hc
    decide

theorem isBlank_of_isNameChar {c : Char} (hc : isNameChar c = true) : isBlank c = false :=
  of_ascii (P := fun c => isNameChar c = true → isBlank c = false) (by decide)
    (toNat_lt_of_isNameChar hc) hc

theorem isNameChar_of_mem {t : Text} (ht : isName t = true) {c : Char} (hc : c ∈ t) :
    isNameChar c = true := by
  rw [isName, Bool.and_eq_true] at ht
  exact List.all_eq_true.1 ht.2 c hc

theorem ne_dot_of_isNameChar {c : Char} (hc : isNameChar c = true) : c ≠ '.' := by
  rintro rfl
  exact absurd hc (by decide)

namespace Path
variable {p : Path}

theorem isNameChar_of_mem_source (hp : p.Named) {c : Char} (hc : c ∈ p.source) :
    c = '.' ∨ isNameChar c = true := by
  obtain ⟨hname, hmember⟩ := hp
  rcases List.mem_cons.1 hc with rfl | hc
  · exact .inl rfl
  · rcases List.mem_append.1 hc with hc | hc
    · exact .inr (isNameChar_of_mem hname hc)
    · cases hm : p.member with
      | none => simp [hm] at hc
      | some m =>
        rw [hm] at hc
        rcases List.mem_cons.1 hc with rfl | hc
        · exact .inl rfl
        · exact .inr (isNameChar_of_mem (hmember m hm) hc)

theorem isBlank_of_mem_source (hp : p.Named) {c : Char} (hc : c ∈ p.source) :
    isBlank c = false := by
  rcases isNameChar_of_mem_source hp hc with rfl | hc
  · decide
  · exact isBlank_of_isNameChar hc

theorem ofText?_source (hp : p.Named) : ofText? p.source = some p := by
  obtain ⟨name, member⟩ := p
  obtain ⟨hname, hmember⟩ := hp
  have hdots {t : Text} (ht : isName t = true) : ∀ c ∈ t, decide (c = '.') = false := by
    intro c hc
    exact decide_eq_false (ne_dot_of_isNameChar (isNameChar_of_mem ht hc))
  cases member with
  | none =>
    have hsplit := splitBy_of_none (hdots hname)
    simp [ofText?, source, hsplit, show isName name = true from hname]
  | some m =>
    have hm : isName m = true := hmember m rfl
    have hsplit := splitBy_append_cons (hdots hname) '.' rfl m
    rw [splitBy_of_none (hdots hm)] at hsplit
    simp [ofText?, source, hsplit, show isName name = true from hname, hm]

theorem source_ne_nil (p : Path) : p.source ≠ [] := List.cons_ne_nil _ _

end Path

theorem Spaced.self (word : Text) : Spaced word word :=
  ⟨[], [], List.forall_mem_nil _, List.forall_mem_nil _, (List.append_nil word).symm⟩

/-- The end of a path is no blank, whatever stands before the path. -/
theorem Path.isBlank_getLast? {p : Path} (hp : p.Named) (t : Text) :
    ∀ c ∈ (t ++ p.source).getLast?, isBlank c = false := by
  intro c hc
  rw [List.getLast?_append, List.getLast?_eq_some_getLast p.source_ne_nil, Option.some_or] at hc
  obtain rfl := Option.some.inj hc
  exact isBlank_of_mem_source hp (List.getLast_mem _)

theorem condition?_append {p : Path} (hp : p.Named) {gap : Text} (hne : gap ≠ [])
    (hgap : Blanks gap) : condition? ('i' :: 'f' :: (gap ++ p.source)) = some p := by
  obtain ⟨c, cs, rfl⟩ := List.exists_cons_of_ne_nil hne
  have hafter : after? "if".toList ('i' :: 'f' :: (c :: cs ++ p.source)) =
      some (c :: (cs ++ p.source)) := by
    simp [after?]
  have hdrop : (cs ++ p.source).dropWhile isBlank = p.source := by
    rw [List.dropWhile_append_of_pos (fun d hd => hgap d (List.mem_cons_of_mem c hd))]
    exact dropWhile_of_head (fun d hd => Path.isBlank_of_mem_source hp (List.mem_of_head? hd))
  rw [condition?, hafter]
  dsimp only
  rw [if_pos (hgap c List.mem_cons_self), hdrop, Path.ofText?_source hp]

theorem Spaced.mem_cases {word inner : Text} (h : Spaced word inner) {c : Char} (hc : c ∈ inner) :
    isBlank c = true ∨ c ∈ word := by
  obtain ⟨left, right, hleft, hright, rfl⟩ := h
  rcases List.mem_append.1 hc with hc | hc
  · exact .inl (hleft c hc)
  · rcases List.mem_append.1 hc with hc | hc
    · exact .inr hc
    · exact .inl (hright c hc)

theorem Tag.IsWritten.mem_cases {tag : Tag} {inner : Text} (h : tag.IsWritten inner) {c : Char}
    (hc : c ∈ inner) : isBlank c = true ∨ c = '.' ∨ isNameChar c = true := by
  have hletters {word : Text} (hword : word.all isNameChar = true) (hc : c ∈ word) :
      isNameChar c = true := List.all_eq_true.1 hword c hc
  cases tag with
  | field p =>
    obtain ⟨hp, hspaced⟩ := h
    rcases hspaced.mem_cases hc with hc | hc
    · exact .inl hc
    · exact .inr (Path.isNameChar_of_mem_source hp hc)
  | ifTag p =>
    obtain ⟨hp, gap, -, hgap, hspaced⟩ := h
    rcases hspaced.mem_cases hc with hc | hc
    · exact .inl hc
    · have hc : c ∈ ['i', 'f'] ++ (gap ++ p.source) := hc
      rcases List.mem_append.1 hc with hc | hc
      · exact .inr (.inr (hletters (by decide) hc))
      · rcases List.mem_append.1 hc with hc | hc
        · exact .inl (hgap c hc)
        · exact .inr (Path.isNameChar_of_mem_source hp hc)
  | elseTag =>
    rcases Spaced.mem_cases h hc with hc | hc
    · exact .inl hc
    · exact .inr (.inr (hletters (by decide) hc))
  | endTag =>
    rcases Spaced.mem_cases h hc with hc | hc
    · exact .inl hc
    · exact .inr (.inr (hletters (by decide) hc))
  | unknown => exact h.elim

/-- No tag holds a brace. -/
theorem Tag.IsWritten.notMem_brace {tag : Tag} {inner : Text} (h : tag.IsWritten inner) :
    '{' ∉ inner ∧ '}' ∉ inner := by
  constructor
  · intro hc
    exact absurd (h.mem_cases hc) (by decide)
  · intro hc
    exact absurd (h.mem_cases hc) (by decide)

end Template
end ThemedPrompt
