import ThemedPrompt.Template.Tree

/-! # Positions of the descent

The descent with the tokens at rest and a position that moves over them. Its functions call each
other and loop, and nothing in how they are written tells that they come to an end, so they run
within a bound on the calls in a row. What is returned within one bound is returned within any
greater one.
-/
namespace ThemedPrompt
namespace Template

/-- Whether a token is the `else` or the `end` of some conditional. -/
def Token.isCloser : Token → Bool
  | .text _ => false
  | .tag inner =>
    match Tag.ofInner inner with
    | .elseTag => true
    | .endTag => true
    | _ => false

/-- How a block of nodes ended. -/
inductive Terminator
  | elseTag (inner : Text)
  | endTag
  | eof
deriving DecidableEq, Repr

/-- The functions of the descent with what they are called with, by what they return besides nodes.
The nodes that a block or an alternative goes on from are in reverse. -/
inductive Call : Type → Type
  | block (inBranch : Bool) (nodes : List Node) : Call Terminator
  | conditional (inner : Text) (p : Path) : Call Unit
  | alternative (nodes : List Node) : Call Bool
  | sequence (nodes : List Node) : Call Unit

/-- What a call returns, and the position it leaves behind. -/
structure Reading (α : Type) where
  nodes : List Node
  stop : α
  pos : Nat

/-- A call at a position; none if it would need more calls in a row than the bound. -/
def run (ts : List Token) : (bound : Nat) → {α : Type} → Call α → (pos : Nat) → Option (Reading α)
  | 0, _, _, _ => none
  | bound + 1, _, .block inBranch nodes, pos =>
    match ts[pos]? with
    | none => some ⟨nodes.reverse, .eof, pos⟩
    | some (.text t) => run ts bound (.block inBranch (pushLiteral nodes t)) (pos + 1)
    | some (.tag inner) =>
      match Tag.ofInner inner with
      | .field p => run ts bound (.block inBranch (.field p :: nodes)) (pos + 1)
      | .ifTag p =>
        (run ts bound (.conditional inner p) (pos + 1)).bind fun r =>
          run ts bound (.block inBranch (r.nodes.reverse ++ nodes)) r.pos
      | .unknown => run ts bound (.block inBranch (pushLiteral nodes (tagSource inner))) (pos + 1)
      -- outside of all conditionals the tag is left to the caller
      | .elseTag =>
        if inBranch then some ⟨nodes.reverse, .elseTag inner, pos + 1⟩
        else some ⟨nodes.reverse, .eof, pos⟩
      | .endTag =>
        if inBranch then some ⟨nodes.reverse, .endTag, pos + 1⟩
        else some ⟨nodes.reverse, .eof, pos⟩
  | bound + 1, _, .conditional inner p, pos =>
    (run ts bound (.block true []) pos).bind fun yes =>
      match yes.stop with
      | .endTag => some ⟨[.conditional p yes.nodes []], (), yes.pos⟩
      | .elseTag elseInner =>
        (run ts bound (.alternative []) yes.pos).map fun no =>
          if no.stop then ⟨[.conditional p yes.nodes no.nodes], (), no.pos⟩
          else ⟨.literal (tagSource inner) :: (yes.nodes ++ .literal (tagSource elseInner) :: no.nodes),
            (), no.pos⟩
      | .eof => some ⟨.literal (tagSource inner) :: yes.nodes, (), yes.pos⟩
  | bound + 1, _, .alternative nodes, pos =>
    (run ts bound (.block true []) pos).bind fun r =>
      match r.stop with
      | .endTag => some ⟨nodes.reverse ++ r.nodes, true, r.pos⟩
      | .elseTag inner =>
        run ts bound (.alternative (pushLiteral (r.nodes.reverse ++ nodes) (tagSource inner))) r.pos
      | .eof => some ⟨nodes.reverse ++ r.nodes, false, r.pos⟩
  | bound + 1, _, .sequence nodes, pos =>
    match ts[pos]? with
    | none => some ⟨nodes, (), pos⟩
    | some tok =>
      if tok.isCloser then run ts bound (.sequence (nodes ++ [.literal tok.source])) (pos + 1)
      else (run ts bound (.block false []) pos).bind fun r =>
        run ts bound (.sequence (nodes ++ r.nodes)) r.pos

/-- A call that returns within a bound returns the same within any greater one. -/
theorem run_succ (ts : List Token) (bound : Nat) {α : Type} (c : Call α) {pos : Nat} {r : Reading α}
    (h : run ts bound c pos = some r) : run ts (bound + 1) c pos = some r := by
  induction bound generalizing α c pos r with
  | zero => cases h
  | succ bound ih =>
    cases c with
    | block inBranch nodes =>
      rw [run] at h ⊢
      cases htok : ts[pos]? with
      | none =>
        rw [htok] at h
        exact h
      | some tok =>
        rw [htok] at h
        cases tok with
        | text t => exact ih _ h
        | tag inner =>
          cases htag : Tag.ofInner inner with
          | field p | unknown =>
            simp only [htag] at h ⊢
            exact ih _ h
          | ifTag p =>
            simp only [htag] at h ⊢
            obtain ⟨read, hread, hrest⟩ := Option.bind_eq_some_iff.1 h
            exact Option.bind_eq_some_iff.2 ⟨read, ih _ hread, ih _ hrest⟩
          | elseTag | endTag =>
            simp only [htag] at h ⊢
            exact h
    | conditional inner p =>
      rw [run] at h ⊢
      obtain ⟨⟨read, stop, middle⟩, hyes, h⟩ := Option.bind_eq_some_iff.1 h
      refine Option.bind_eq_some_iff.2 ⟨_, ih _ hyes, ?_⟩
      cases stop with
      | elseTag elseInner =>
        obtain ⟨no, hno, hr⟩ := Option.map_eq_some_iff.1 h
        exact Option.map_eq_some_iff.2 ⟨no, ih _ hno, hr⟩
      | endTag | eof => exact h
    | alternative nodes =>
      rw [run] at h ⊢
      obtain ⟨⟨read, stop, middle⟩, hread, h⟩ := Option.bind_eq_some_iff.1 h
      refine Option.bind_eq_some_iff.2 ⟨_, ih _ hread, ?_⟩
      cases stop with
      | elseTag inner => exact ih _ h
      | endTag | eof => exact h
    | sequence nodes =>
      rw [run] at h ⊢
      cases htok : ts[pos]? with
      | none =>
        rw [htok] at h
        exact h
      | some tok =>
        rw [htok] at h
        dsimp only at h ⊢
        split at h
        · next hcloser => exact (if_pos hcloser).trans (ih _ h)
        · next hcloser =>
          obtain ⟨read, hread, hrest⟩ := Option.bind_eq_some_iff.1 h
          rw [if_neg hcloser]
          exact Option.bind_eq_some_iff.2 ⟨read, ih _ hread, ih _ hrest⟩

theorem run_mono {ts : List Token} {bound more : Nat} (hle : bound ≤ more) {α : Type} (c : Call α)
    {pos : Nat} {r : Reading α} (h : run ts bound c pos = some r) : run ts more c pos = some r := by
  induction hle with
  | refl => exact h
  | step _ ih => exact run_succ ts _ c ih

theorem run_unique {ts : List Token} {bound other : Nat} {α : Type} {c : Call α} {pos : Nat}
    {r r' : Reading α} (h : run ts bound c pos = some r) (h' : run ts other c pos = some r') :
    r = r' := by
  rcases Nat.le_total bound other with hle | hle
  · exact Option.some.inj ((run_mono hle c h).symm.trans h')
  · exact Option.some.inj (h.symm.trans (run_mono hle c h'))

/-- What a turn of a loop ends with, or the nodes and the position that the loop goes on with. -/
abbrev Turn (α : Type) := Reading α ⊕ List Node × Nat

/-- A turn of the loop behind the first `else` of a conditional. -/
def alternativeTurn (ts : List Token) (bound : Nat) (nodes : List Node) (pos : Nat) :
    Option (Turn Bool) :=
  (run ts bound (.block true []) pos).map fun r =>
    match r.stop with
    | .endTag => .inl ⟨nodes.reverse ++ r.nodes, true, r.pos⟩
    | .elseTag inner => .inr (pushLiteral (r.nodes.reverse ++ nodes) (tagSource inner), r.pos)
    | .eof => .inl ⟨nodes.reverse ++ r.nodes, false, r.pos⟩

/-- A turn of the loop over a whole template. -/
def sequenceTurn (ts : List Token) (bound : Nat) (nodes : List Node) (pos : Nat) :
    Option (Turn Unit) :=
  match ts[pos]? with
  | none => some (.inl ⟨nodes, (), pos⟩)
  | some tok =>
    if tok.isCloser then some (.inr (nodes ++ [.literal tok.source], pos + 1))
    else (run ts bound (.block false []) pos).map fun r => .inr (nodes ++ r.nodes, r.pos)

theorem run_alternative (ts : List Token) (bound : Nat) (nodes : List Node) (pos : Nat) :
    run ts (bound + 1) (.alternative nodes) pos = (alternativeTurn ts bound nodes pos).bind
      (Sum.elim some fun s => run ts bound (.alternative s.1) s.2) := by
  rw [run, alternativeTurn]
  cases run ts bound (.block true []) pos with
  | none => rfl
  | some r =>
    obtain ⟨read, stop, pos'⟩ := r
    cases stop <;> rfl

theorem run_sequence (ts : List Token) (bound : Nat) (nodes : List Node) (pos : Nat) :
    run ts (bound + 1) (.sequence nodes) pos = (sequenceTurn ts bound nodes pos).bind
      (Sum.elim some fun s => run ts bound (.sequence s.1) s.2) := by
  rw [run, sequenceTurn]
  cases ts[pos]? with
  | none => rfl
  | some tok =>
    dsimp only
    split
    · rfl
    · cases run ts bound (.block false []) pos <;> rfl

end Template
end ThemedPrompt
