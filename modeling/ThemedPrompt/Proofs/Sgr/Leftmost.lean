import Mathlib.Data.List.TakeWhile
import ThemedPrompt.Proofs.Sgr.Pattern

/-! # Leftmost sequences

A text is cut at the leftmost words of the pattern, one after the other. There is exactly one
such cut, and the pieces of a text are those of the cut.
-/
namespace ThemedPrompt
namespace Sgr
open Text

/-- What the digits at the front of the parameters lead to, by what follows them. -/
def afterDigits (d : Text) : Text → Option (List Nat × Text)
  | ';' :: after =>
    if d = [] then none else (parameters? after).map fun (codes, u) => (code d :: codes, u)
  | 'm' :: after => if d = [] then none else some ([code d], after)
  | _ => none

theorem parameters?_append {d rest : Text} (hd : ∀ c ∈ d, c.isDigit = true)
    (hrest : ∀ c ∈ rest.head?, c.isDigit = false) :
    parameters? (d ++ rest) = afterDigits d rest := by
  have hstop : rest.takeWhile Char.isDigit = [] := by
    cases rest with
    | nil => rfl
    | cons c cs =>
      have hc := hrest c rfl
      simp [hc]
  have hnumber : number? (d ++ rest) = if d = [] then none else some (code d) := by
    rw [number?, List.takeWhile_append_of_pos hd, hstop, List.append_nil]
  have hdrop : (d ++ rest).dropWhile Char.isDigit = rest := by
    rw [List.dropWhile_append_of_pos hd, dropWhile_of_head hrest]
  rw [parameters?]
  by_cases hne : d = []
  · rw [if_pos hne] at hnumber
    split
    · next h _ => cases hnumber.symm.trans h
    · next h _ => cases hnumber.symm.trans h
    · unfold afterDigits
      split <;> simp [hne]
  · rw [if_neg hne] at hnumber
    split
    · next h₁ h₂ =>
      cases hnumber.symm.trans h₁
      cases hdrop.symm.trans h₂
      simp [afterDigits, hne]
    · next h₁ h₂ =>
      cases hnumber.symm.trans h₁
      cases hdrop.symm.trans h₂
      simp [afterDigits, hne]
    · next hsemicolon hm =>
      unfold afterDigits
      split
      · exact absurd hdrop (hsemicolon _ _ hnumber)
      · exact absurd hdrop (hm _ _ hnumber)
      · rfl

theorem parameters?_semicolon {n : Text} (hn : IsNumeral n) (rest : Text) :
    parameters? (n ++ ';' :: rest) =
      (parameters? rest).map fun (codes, after) => (code n :: codes, after) := by
  rw [parameters?_append hn.2 (by simp), afterDigits, if_neg hn.1]

theorem parameters?_final {n : Text} (hn : IsNumeral n) (rest : Text) :
    parameters? (n ++ 'm' :: rest) = some ([code n], rest) := by
  rw [parameters?_append hn.2 (by simp), afterDigits, if_neg hn.1]

/-- No sequence goes on after digits but with another one, or with `;` or `m` after a number. -/
theorem parameters?_broken {d : Text} (hd : ∀ c ∈ d, c.isDigit = true) (rest : Text)
    (hrest : ∀ c ∈ rest.head?, c.isDigit = false ∧ (d = [] ∨ (c ≠ ';' ∧ c ≠ 'm'))) :
    parameters? (d ++ rest) = none := by
  rw [parameters?_append hd (fun c hc => (hrest c hc).1)]
  unfold afterDigits
  split
  · rcases (hrest ';' rfl).2 with h | ⟨h, _⟩
    · rw [if_pos h]
    · exact absurd rfl h
  · rcases (hrest 'm' rfl).2 with h | ⟨_, h⟩
    · rw [if_pos h]
    · exact absurd rfl h
  · rfl

theorem parameters?_separated {numbers : List Text} (hall : ∀ n ∈ numbers, IsNumeral n)
    (rest : Text) : parameters? (numbers.flatMap (· ++ [';']) ++ rest) =
      (parameters? rest).map fun (codes, after) => (numbers.map code ++ codes, after) := by
  induction numbers with
  | nil => simp
  | cons n ns ih =>
    have hns := ih (fun k hk => hall k (List.mem_cons_of_mem n hk))
    rw [List.flatMap_cons, List.append_assoc, List.append_assoc, List.singleton_append,
      parameters?_semicolon (hall n List.mem_cons_self), hns, Option.map_map]
    rfl

theorem parameters?_join {numbers : List Text} (hne : numbers ≠ [])
    (hall : ∀ n ∈ numbers, IsNumeral n) (rest : Text) :
    parameters? (join [';'] numbers ++ 'm' :: rest) = some (numbers.map code, rest) := by
  fun_induction join [';'] numbers with
  | case1 => exact absurd rfl hne
  | case2 n => exact parameters?_final (hall n List.mem_cons_self) rest
  | case3 n k ns ih =>
    have hns := ih (List.cons_ne_nil k ns) (fun l hl => hall l (List.mem_cons_of_mem n hl))
    rw [List.append_assoc, List.append_assoc, List.singleton_append,
      parameters?_semicolon (hall n List.mem_cons_self), hns]
    rfl

theorem exists_of_parameters? {t rest : Text} {codes : List Nat}
    (h : parameters? t = some (codes, rest)) :
    ∃ numbers, numbers ≠ [] ∧ (∀ n ∈ numbers, IsNumeral n) ∧
      t = join [';'] numbers ++ 'm' :: rest := by
  have hnumeral {u : Text} {n : Nat} (hn : number? u = some n) :
      IsNumeral (u.takeWhile Char.isDigit) := by
    unfold number? at hn
    split at hn
    · cases hn
    · next hne => exact ⟨hne, fun c hc => List.mem_takeWhile_imp hc⟩
  fun_induction parameters? t generalizing codes with
  | case1 t n after hd hn ih =>
    obtain ⟨⟨cs, r⟩, hp, heq⟩ := Option.map_eq_some_iff.1 h
    cases heq
    obtain ⟨numbers, hne, hall, hafter⟩ := ih hp
    obtain ⟨k, ks, rfl⟩ := List.exists_cons_of_ne_nil hne
    refine ⟨t.takeWhile Char.isDigit :: k :: ks, List.cons_ne_nil _ _, ?_, ?_⟩
    · exact List.forall_mem_cons.2 ⟨hnumeral hn, hall⟩
    · rw [join, List.append_assoc, List.append_assoc, ← hafter, List.singleton_append, ← hd,
        List.takeWhile_append_dropWhile]
  | case2 t n after hd hn =>
    cases h
    refine ⟨[t.takeWhile Char.isDigit], List.cons_ne_nil _ _, ?_, ?_⟩
    · exact List.forall_mem_singleton.2 (hnumeral hn)
    · rw [join, ← hd, List.takeWhile_append_dropWhile]
  | case3 => cases h

/-- The reader finds the words of the pattern at the front of a text, and nothing else. -/
theorem sequence?_eq_some_iff {t rest : Text} {codes : List Nat} :
    sequence? t = some (codes, rest) ↔
      ∃ found, IsSequence found ∧ t = found ++ rest ∧ codes = codesOf found := by
  constructor
  · intro h
    unfold sequence? at h
    split at h
    · next after =>
      obtain ⟨numbers, hne, hall, rfl⟩ := exists_of_parameters? h
      cases (parameters?_join hne hall rest).symm.trans h
      refine ⟨written numbers, isSequence_written hne hall, ?_, ?_⟩
      · simp [written, esc]
      · exact (codesOf_written hne hall).symm
    · cases h
  · rintro ⟨found, hfound, rfl, rfl⟩
    obtain ⟨numbers, hne, hall, rfl⟩ := isSequence_iff.1 hfound
    have hparameters := parameters?_join hne hall rest
    rw [codesOf_written hne hall]
    simpa [sequence?, written, esc] using hparameters

theorem sequence?_append {found : Text} (hfound : IsSequence found) (rest : Text) :
    sequence? (found ++ rest) = some (codesOf found, rest) :=
  sequence?_eq_some_iff.2 ⟨found, hfound, rfl, rfl⟩

/-- No sequence is the start of another one, so a text starts with at most one. -/
theorem IsSequence.unique {found found' rest rest' : Text} (h : IsSequence found)
    (h' : IsSequence found') (heq : found ++ rest = found' ++ rest') :
    found = found' ∧ rest = rest' := by
  -- The reader gives one answer for the common text, and that answer holds the rest.
  have hread := (sequence?_append h rest).symm.trans (heq ▸ sequence?_append h' rest')
  have hrest : rest = rest' := (Prod.mk.inj (Option.some.inj hread)).2
  exact ⟨List.append_cancel_right (hrest ▸ heq), hrest⟩

structure FirstSequence (t before found after : Text) : Prop where
  split : t = before ++ (found ++ after)
  isSequence : IsSequence found
  leftmost : ∀ b f a, t = b ++ (f ++ a) → IsSequence f → before.length ≤ b.length

inductive Cut
  | last (stretch : Text)
  | before (stretch found : Text) (rest : Cut)

/-- The cut of a text at its leftmost sequences that do not overlap. -/
inductive LeftmostCut : Text → Cut → Prop
  | last {t : Text} : (∀ b f a, t = b ++ (f ++ a) → ¬ IsSequence f) → LeftmostCut t (.last t)
  | before {t stretch found after : Text} {rest : Cut} :
      FirstSequence t stretch found after → LeftmostCut after rest →
        LeftmostCut t (.before stretch found rest)

theorem FirstSequence.unique {t before found after before' found' after' : Text}
    (h : FirstSequence t before found after) (h' : FirstSequence t before' found' after') :
    before = before' ∧ found = found' ∧ after = after' := by
  have hlength := Nat.le_antisymm (h.leftmost _ _ _ h'.split h'.isSequence)
    (h'.leftmost _ _ _ h.split h.isSequence)
  obtain ⟨hbefore, hrest⟩ := List.append_inj (h.split.symm.trans h'.split) hlength
  obtain ⟨hfound, hafter⟩ := h.isSequence.unique h'.isSequence hrest
  exact ⟨hbefore, hfound, hafter⟩

theorem LeftmostCut.unique {t : Text} {cut other : Cut} (h : LeftmostCut t cut)
    (h' : LeftmostCut t other) : cut = other := by
  induction h generalizing other with
  | last hnone =>
    cases h' with
    | last => rfl
    | before hfirst _ => exact absurd hfirst.isSequence (hnone _ _ _ hfirst.split)
  | before hfirst _ ih =>
    cases h' with
    | last hnone => exact absurd hfirst.isSequence (hnone _ _ _ hfirst.split)
    | before hfirst' hrest =>
      obtain ⟨rfl, rfl, rfl⟩ := hfirst.unique hfirst'
      rw [ih hrest]

namespace Cut

def push (c : Char) : Cut → Cut
  | .last stretch => .last (c :: stretch)
  | .before stretch found rest => .before (c :: stretch) found rest

def pieces : Cut → List Piece
  | .last stretch => stretch.map .literal
  | .before stretch found rest => stretch.map .literal ++ .codes (codesOf found) :: rest.pieces

@[simp] theorem pieces_push (c : Char) (cut : Cut) :
    (cut.push c).pieces = .literal c :: cut.pieces := by
  cases cut <;> rfl

end Cut

/-- A character at which no sequence starts belongs to the stretch that follows it. -/
theorem LeftmostCut.push {c : Char} {t : Text} {cut : Cut}
    (hnone : ∀ f a, c :: t = f ++ a → ¬ IsSequence f) (h : LeftmostCut t cut) :
    LeftmostCut (c :: t) (cut.push c) := by
  cases h with
  | last hlast =>
    refine .last ?_
    intro b f a heq
    cases b with
    | nil => exact hnone f a heq
    | cons d ds => exact hlast ds f a (List.cons.inj heq).2
  | before hfirst hrest =>
    refine .before ⟨congrArg (c :: ·) hfirst.split, hfirst.isSequence, ?_⟩ hrest
    intro b f a heq hf
    cases b with
    | nil => exact absurd hf (hnone f a heq)
    | cons d ds => exact Nat.succ_le_succ (hfirst.leftmost ds f a (List.cons.inj heq).2 hf)

theorem exists_leftmostCut (t : Text) : ∃ cut, LeftmostCut t cut ∧ cut.pieces = pieces t := by
  -- A character that starts no sequence is put to the stretch that begins behind it.
  fun_induction pieces t with
  | case1 =>
    refine ⟨.last [], .last ?_, rfl⟩
    intro b f a heq hf
    have hnil : f = [] := by simp_all
    obtain ⟨numbers, _, _, h⟩ := isSequence_iff.1 hf
    exact List.cons_ne_nil _ _ (h.symm.trans hnil)
  | case2 c cs codes rest hread ih =>
    obtain ⟨cut, hcut, hpieces⟩ := ih
    obtain ⟨found, hfound, hsplit, rfl⟩ := sequence?_eq_some_iff.1 hread
    exact ⟨.before [] found cut, .before ⟨hsplit, hfound, fun _ _ _ _ _ => Nat.zero_le _⟩ hcut,
      by simp [Cut.pieces, hpieces]⟩
  | case3 c cs hread ih =>
    obtain ⟨cut, hcut, hpieces⟩ := ih
    refine ⟨cut.push c, hcut.push ?_, by rw [Cut.pieces_push, hpieces]⟩
    intro f a heq hf
    rw [heq, sequence?_append hf a] at hread
    cases hread

end Sgr
end ThemedPrompt
