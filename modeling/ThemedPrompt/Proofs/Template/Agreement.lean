import ThemedPrompt.Proofs.Template.Balanced
import ThemedPrompt.Proofs.Template.Descent
import ThemedPrompt.Proofs.Template.TokenSource

/-! # The descent and the stack

A function of the descent starts with some nodes and ends in front of some tokens. The machine with
the stack comes to the same nodes in front of the same tokens, whatever lies below on its stack.
-/
namespace ThemedPrompt
namespace Template

@[simp] theorem nodesOf_append (ms others : List Mark) :
    nodesOf (ms ++ others) = nodesOf ms ++ nodesOf others := by
  simp only [nodesOf_eq_map, List.map_append]

@[simp] theorem nodesOf_reverse (ms : List Mark) : nodesOf ms.reverse = (nodesOf ms).reverse := by
  simp only [nodesOf_eq_map, List.map_reverse]

theorem nodesOf_joinPiece (tok : Token) (ms : List Mark) :
    nodesOf (joinPiece tok ms) = pushLiteral (nodesOf ms) tok.source := by
  cases ms with
  | nil => simp [joinPiece, nodesOf, Mark.node, pushLiteral]
  | cons m ms => cases m <;> simp [joinPiece, nodesOf, Mark.node, pushLiteral]

/-- The marks that the machine ends with. -/
def outcome (s : Matcher) (ts : List Token) : List Mark := (ts.foldl Matcher.step s).finish

theorem outcome_cons (s : Matcher) (tok : Token) (ts : List Token) :
    outcome s (tok :: ts) = outcome (s.step tok) ts := rfl

/-- The tokens that a branch left, with the tag that ended it. -/
inductive Ending.Leads : Ending → List Token → Prop
  | elseTag {inner : Text} {rest : List Token} (h : Tag.ofInner inner = .elseTag) :
    Leads (.elseTag inner rest) (.tag inner :: rest)
  | endTag {inner : Text} {rest : List Token} (h : Tag.ofInner inner = .endTag) :
    Leads (.endTag rest) (.tag inner :: rest)
  | exhausted : Leads .exhausted []

/-- How an alternative ended: at its `end`, or with the input. -/
def endingOf (after : Option (List Token)) : Ending := after.elim .exhausted .endTag

def BranchAgrees (ts : List Token) : Prop :=
  ∀ b, ∃ b' left, nodesOf b'.reverse = (branch (nodesOf b) ts).val.1 ∧
    (branch (nodesOf b) ts).val.2.Leads left ∧
    ∀ a stack, outcome ⟨⟨a, b⟩, stack⟩ ts = outcome ⟨⟨a, b'⟩, stack⟩ left

def AlternativeAgrees (ts : List Token) : Prop :=
  ∀ d, ∃ d' left, nodesOf d'.reverse = (alternative (nodesOf d) ts).val.1 ∧
    (endingOf (alternative (nodesOf d) ts).val.2).Leads left ∧
    ∀ f stack, f.divided.isSome →
      outcome ⟨⟨d, []⟩, f :: stack⟩ ts = outcome ⟨⟨d', []⟩, f :: stack⟩ left

def ConditionalAgrees (ts : List Token) : Prop :=
  ∀ {inner p}, Tag.ofInner inner = .ifTag p → ∃ ms, nodesOf ms = (conditional inner p ts).val.1 ∧
    ∀ a b stack, outcome ⟨⟨a, b⟩, stack⟩ (.tag inner :: ts) =
      outcome ⟨⟨a, ms.reverse ++ b⟩, stack⟩ (conditional inner p ts).val.2

-- What the machine does, one equation for each kind of token.
section
variable {inner : Text} {p : Path} (a b : List Mark) (l : Level) (f : Frame) (stack : List Frame)
  (ts : List Token)

theorem outcome_text (t : Text) : outcome ⟨⟨a, b⟩, stack⟩ (.text t :: ts) =
    outcome ⟨⟨a, joinPiece (.text t) b⟩, stack⟩ ts := rfl

theorem outcome_unknown (h : Tag.ofInner inner = .unknown) :
    outcome ⟨⟨a, b⟩, stack⟩ (.tag inner :: ts) =
      outcome ⟨⟨a, joinPiece (.tag inner) b⟩, stack⟩ ts := by
  simp only [outcome_cons, Matcher.step, h, Level.join]

theorem outcome_field (h : Tag.ofInner inner = .field p) :
    outcome ⟨⟨a, b⟩, stack⟩ (.tag inner :: ts) =
      outcome ⟨⟨a, .field inner p :: b⟩, stack⟩ ts := by
  simp only [outcome_cons, Matcher.step, h, Level.put]

theorem outcome_ifTag (h : Tag.ofInner inner = .ifTag p) :
    outcome ⟨l, stack⟩ (.tag inner :: ts) = outcome ⟨{}, ⟨l, inner, p, none⟩ :: stack⟩ ts := by
  simp only [outcome_cons, Matcher.step, h]

theorem outcome_elseTag (h : Tag.ofInner inner = .elseTag) (hf : f.divided = none) :
    outcome ⟨l, f :: stack⟩ (.tag inner :: ts) =
      outcome ⟨{}, { f with divided := some (l.marks, inner) } :: stack⟩ ts := by
  simp only [outcome_cons, Matcher.step, h, hf]

theorem outcome_late (h : Tag.ofInner inner = .elseTag) (hf : f.divided.isSome) :
    outcome ⟨l, f :: stack⟩ (.tag inner :: ts) =
      outcome ⟨⟨joinPiece (.tag inner) (l.block ++ l.before), []⟩, f :: stack⟩ ts := by
  obtain ⟨branch, hbranch⟩ := Option.isSome_iff_exists.1 hf
  simp only [outcome_cons, Matcher.step, h, hbranch, Level.late]

theorem outcome_endTag (h : Tag.ofInner inner = .endTag) :
    outcome ⟨l, f :: stack⟩ (.tag inner :: ts) =
      outcome ⟨f.enclosing.put (f.close l.marks inner), stack⟩ ts := by
  simp only [outcome_cons, Matcher.step, h]

theorem outcome_stray (h : Tag.ofInner inner = .elseTag ∨ Tag.ofInner inner = .endTag) :
    outcome ⟨l, []⟩ (.tag inner :: ts) =
      outcome ⟨⟨.literal [.tag inner] :: (l.block ++ l.before), []⟩, []⟩ ts := by
  rcases h with h | h
  · simp only [outcome_cons, Matcher.step, h, Level.stray]
  · simp only [outcome_cons, Matcher.step, h, Level.stray]

/-- An `if` without an `end` leaves its tag and its contents behind. -/
theorem outcome_unclosed :
    outcome ⟨l, f :: stack⟩ [] =
      outcome ⟨{ f.enclosing with
        block := (.literal [.tag f.opener] :: f.contents l.marks).reverse ++ f.enclosing.block },
        stack⟩ [] := by
  simp [outcome, Matcher.finish, Frame.spill, Level.marks]

/-- Where a branch has ended, it is all the same what of it counts as read before. -/
theorem outcome_merge {e : Ending} {left : List Token} (he : e.Leads left)
    (hend : ∀ inner rest, e ≠ .elseTag inner rest) :
    outcome ⟨⟨a, b⟩, f :: stack⟩ left = outcome ⟨⟨b ++ a, []⟩, f :: stack⟩ left := by
  cases he with
  | elseTag h => exact absurd rfl (hend _ _)
  | endTag h => simp only [outcome_endTag _ _ _ _ h, Level.marks, List.nil_append]
  | exhausted => simp only [outcome_unclosed, Level.marks, List.nil_append]

end

theorem branchAgrees_of (ts : List Token)
    (hbranch : ∀ shorter : List Token, shorter.length < ts.length → BranchAgrees shorter)
    (hconditional : ∀ shorter : List Token, shorter.length < ts.length → ConditionalAgrees shorter) :
    BranchAgrees ts := by
  intro b
  cases ts with
  | nil =>
    refine ⟨b, [], ?_, ?_, fun a stack => rfl⟩
    · rw [branch_nil, nodesOf_reverse]
    · rw [branch_nil]
      exact .exhausted
  | cons tok ts =>
    have hts : ts.length < (tok :: ts).length := Nat.lt_succ_self _
    cases tok with
    | text t =>
      obtain ⟨b', left, hnodes, hleads, houtcome⟩ := hbranch ts hts (joinPiece (.text t) b)
      rw [nodesOf_joinPiece, Token.source, ← reads_branch.text] at hnodes hleads
      exact ⟨b', left, hnodes, hleads, fun a stack => houtcome a stack⟩
    | tag inner =>
      cases htag : Tag.ofInner inner with
      | field p =>
        obtain ⟨b', left, hnodes, hleads, houtcome⟩ := hbranch ts hts (.field inner p :: b)
        rw [nodesOf, Mark.node, ← reads_branch.field htag] at hnodes hleads
        refine ⟨b', left, hnodes, hleads, fun a stack => ?_⟩
        rw [outcome_field a b stack ts htag, houtcome]
      | ifTag p =>
        obtain ⟨ms, hms, houtcome⟩ := hconditional ts hts htag
        have hrest : (conditional inner p ts).val.2.length < (Token.tag inner :: ts).length :=
          Nat.lt_succ_of_le (conditional inner p ts).property
        obtain ⟨b', left, hnodes, hleads, houtcome'⟩ := hbranch _ hrest (ms.reverse ++ b)
        have hread : nodesOf (ms.reverse ++ b) =
            (conditional inner p ts).val.1.reverse ++ nodesOf b := by
          rw [nodesOf_append, nodesOf_reverse, hms]
        rw [hread, ← reads_branch.conditional htag _ rfl] at hnodes hleads
        refine ⟨b', left, hnodes, hleads, fun a stack => ?_⟩
        rw [houtcome, houtcome']
      | elseTag =>
        refine ⟨b, .tag inner :: ts, ?_, ?_, fun a stack => rfl⟩
        · rw [branch_elseTag htag, nodesOf_reverse]
        · rw [branch_elseTag htag]
          exact .elseTag htag
      | endTag =>
        refine ⟨b, .tag inner :: ts, ?_, ?_, fun a stack => rfl⟩
        · rw [branch_endTag htag, nodesOf_reverse]
        · rw [branch_endTag htag]
          exact .endTag htag
      | unknown =>
        obtain ⟨b', left, hnodes, hleads, houtcome⟩ := hbranch ts hts (joinPiece (.tag inner) b)
        rw [nodesOf_joinPiece, Token.source, ← branch_unknown htag] at hnodes hleads
        refine ⟨b', left, hnodes, hleads, fun a stack => ?_⟩
        rw [outcome_unknown a b stack ts htag, houtcome]

theorem alternativeAgrees_of (ts : List Token) (hbranch : BranchAgrees ts)
    (halternative : ∀ shorter : List Token, shorter.length < ts.length → AlternativeAgrees shorter) :
    AlternativeAgrees ts := by
  intro d
  obtain ⟨b', left, hnodes, hleads, houtcome⟩ := hbranch []
  have hshorter := (branch [] ts).property
  simp only [nodesOf] at hnodes hleads
  rcases hread : (branch [] ts).val with ⟨read, ending⟩
  rw [hread] at hnodes hleads hshorter
  dsimp only at hnodes hleads hshorter
  have hmerged : nodesOf (b' ++ d).reverse = (nodesOf d).reverse ++ read := by
    rw [List.reverse_append, nodesOf_append, hnodes, nodesOf_reverse]
  cases hleads with
  | @endTag closer rest hcloser =>
    rw [alternative_of_endTag hread]
    refine ⟨b' ++ d, .tag closer :: rest, hmerged, .endTag hcloser, fun f stack _ => ?_⟩
    rw [houtcome, outcome_merge d b' f stack (.endTag hcloser) (by rintro _ _ ⟨⟩)]
  | @elseTag inner rest hinner =>
    obtain ⟨d', left, hnodes', hleads', houtcome'⟩ :=
      halternative rest hshorter (joinPiece (.tag inner) (b' ++ d))
    have hjoined : nodesOf (joinPiece (.tag inner) (b' ++ d)) =
        pushLiteral (read.reverse ++ nodesOf d) (tagSource inner) := by
      rw [nodesOf_joinPiece, nodesOf_append, ← hnodes, nodesOf_reverse, List.reverse_reverse]
      rfl
    rw [hjoined, ← alternative_of_elseTag hread] at hnodes' hleads'
    refine ⟨d', left, hnodes', hleads', fun f stack hf => ?_⟩
    rw [houtcome, outcome_late _ f stack rest hinner hf, houtcome' f stack hf]
  | exhausted =>
    rw [alternative_of_exhausted hread]
    refine ⟨b' ++ d, [], hmerged, .exhausted, fun f stack _ => ?_⟩
    rw [houtcome, outcome_merge d b' f stack .exhausted (by rintro _ _ ⟨⟩)]

theorem conditionalAgrees_of (ts : List Token) (hbranch : BranchAgrees ts)
    (halternative : ∀ shorter : List Token, shorter.length < ts.length → AlternativeAgrees shorter) :
    ConditionalAgrees ts := by
  intro inner p htag
  obtain ⟨yes, left, hnodes, hleads, houtcome⟩ := hbranch []
  have hshorter := (branch [] ts).property
  simp only [nodesOf] at hnodes hleads
  rcases hread : (branch [] ts).val with ⟨read, ending⟩
  rw [hread] at hnodes hleads hshorter
  dsimp only at hnodes hleads hshorter
  have hmarks : (⟨[], yes⟩ : Level).marks = yes.reverse := by
    rw [Level.marks, List.append_nil]
  cases hleads with
  | @endTag closer rest hcloser =>
    rw [conditional_of_endTag hread]
    refine ⟨[.ifThen inner p yes.reverse closer], ?_, fun a b stack => ?_⟩
    · rw [nodesOf, nodesOf, Mark.node, hnodes]
    · rw [outcome_ifTag _ stack ts htag, houtcome, outcome_endTag _ _ stack rest hcloser, hmarks]
      rfl
  | @elseTag middle rest hmiddle =>
    obtain ⟨no, left, hnodes', hleads', houtcome'⟩ := halternative rest hshorter []
    simp only [nodesOf] at hnodes' hleads'
    rcases hno : (alternative [] rest).val with ⟨readNo, after⟩
    rw [hno] at hnodes' hleads'
    -- The machine in front of the alternative's end, with the frame of this conditional on top.
    have hreach : ∀ a b stack, outcome ⟨⟨a, b⟩, stack⟩ (.tag inner :: ts) =
        outcome ⟨⟨no, []⟩, ⟨⟨a, b⟩, inner, p, some (yes.reverse, middle)⟩ :: stack⟩ left := by
      intro a b stack
      rw [outcome_ifTag _ stack ts htag, houtcome, outcome_elseTag _ _ stack rest hmiddle rfl, hmarks]
      exact houtcome' _ stack rfl
    cases after with
    | some after =>
      change (Ending.endTag after).Leads left at hleads'
      cases hleads' with
      | @endTag closer _ hcloser =>
        rw [conditional_of_elseTag hread hno]
        refine ⟨[.ifElse inner p yes.reverse middle no.reverse closer], ?_, fun a b stack => ?_⟩
        · rw [nodesOf, nodesOf, Mark.node, hnodes, hnodes']
        · rw [hreach, outcome_endTag _ _ stack after hcloser]
          rfl
    | none =>
      change Ending.exhausted.Leads left at hleads'
      cases hleads'
      rw [conditional_of_unclosed hread hno]
      refine ⟨.literal [.tag inner] :: (yes.reverse ++ .literal [.tag middle] :: no.reverse), ?_,
        fun a b stack => ?_⟩
      · rw [nodesOf, nodesOf_append, nodesOf, hnodes, hnodes']
        simp [Mark.node, Token.source]
      · rw [hreach, outcome_unclosed]
        rfl
  | exhausted =>
    rw [conditional_of_exhausted hread]
    refine ⟨.literal [.tag inner] :: yes.reverse, ?_, fun a b stack => ?_⟩
    · rw [nodesOf, Mark.node, hnodes]
      simp [Token.source]
    · rw [outcome_ifTag _ stack ts htag, houtcome, outcome_unclosed, hmarks]
      rfl

theorem branchAgrees_and_alternativeAgrees_and_conditionalAgrees (ts : List Token) :
    BranchAgrees ts ∧ AlternativeAgrees ts ∧ ConditionalAgrees ts := by
  induction h : ts.length using Nat.strongRecOn generalizing ts with
  | _ length ih =>
    subst h
    have hbranch := branchAgrees_of ts (fun shorter hlt => (ih _ hlt shorter rfl).1)
      (fun shorter hlt => (ih _ hlt shorter rfl).2.2)
    have halternative := fun shorter hlt => (ih _ hlt shorter rfl).2.1
    exact ⟨hbranch, alternativeAgrees_of ts hbranch halternative,
      conditionalAgrees_of ts hbranch halternative⟩

/-- Outside of all conditionals nothing ends the reading before the last token. -/
theorem nodesOf_outcome (a b : List Mark) (ts : List Token) :
    nodesOf (outcome ⟨⟨a, b⟩, []⟩ ts) = nodesOf a.reverse ++ sequence (nodesOf b) ts := by
  induction h : ts.length using Nat.strongRecOn generalizing a b ts with
  | _ length ih =>
    subst h
    cases ts with
    | nil => rw [sequence_nil, ← nodesOf_reverse, ← nodesOf_append, ← List.reverse_append]; rfl
    | cons tok ts =>
      have hts : ts.length < (tok :: ts).length := Nat.lt_succ_self _
      cases tok with
      | text t =>
        rw [outcome_text, ih _ hts _ _ ts rfl, nodesOf_joinPiece, reads_sequence.text]
        rfl
      | tag inner =>
        cases htag : Tag.ofInner inner with
        | field p =>
          rw [outcome_field a b [] ts htag, ih _ hts _ _ ts rfl, reads_sequence.field htag]
          rfl
        | ifTag p =>
          obtain ⟨-, -, hconditional⟩ :=
            branchAgrees_and_alternativeAgrees_and_conditionalAgrees ts
          obtain ⟨ms, hms, houtcome⟩ := hconditional htag
          have hrest : (conditional inner p ts).val.2.length < (Token.tag inner :: ts).length :=
            Nat.lt_succ_of_le (conditional inner p ts).property
          rw [houtcome, ih _ hrest _ _ _ rfl, reads_sequence.conditional htag _ rfl, nodesOf_append,
            nodesOf_reverse ms, hms]
        | elseTag =>
          rw [outcome_stray _ ts (.inl htag), ih _ hts _ _ ts rfl, sequence_stray (.inl htag)]
          simp [nodesOf, Mark.node, Token.source]
        | endTag =>
          rw [outcome_stray _ ts (.inr htag), ih _ hts _ _ ts rfl, sequence_stray (.inr htag)]
          simp [nodesOf, Mark.node, Token.source]
        | unknown =>
          rw [outcome_unknown a b [] ts htag, ih _ hts _ _ ts rfl, nodesOf_joinPiece,
            sequence_unknown htag]
          rfl

/-- Every text is read as the stack matches its tags. The marks stand for all of the text in its
order, and no tag is literal that could have been matched. -/
theorem parse_eq_matching (t : Text) :
    parse t = nodesOf (matching (tokens t)) ∧ tokensOf (matching (tokens t)) = tokens t ∧
      (tokens t).flatMap Token.source = t ∧ Balanced (matching (tokens t)) := by
  refine ⟨?_, tokensOf_matching (tokens t), flatMap_source_tokens t, balanced_matching (tokens t)⟩
  exact (nodesOf_outcome [] [] (tokens t)).symm

end Template
end ThemedPrompt
