import ThemedPrompt.Proofs.Template.Matching

/-! # Balanced marks

What the stack leaves behind can be told without it. Inside of a conditional no `if` and no `end` is
literal, and an `else` is so only behind the one that divides it. Outside, every literal `end` comes
before the first literal `if`: it had nothing to close, and the `if` found no `end`.
-/
namespace ThemedPrompt
namespace Template

namespace Token

/-- Texts, and tags that are none of the language. -/
def IsText : Token → Prop
  | .text _ => True
  | .tag inner => Tag.ofInner inner = .unknown

def IsIf (tok : Token) : Prop := ∃ inner p, tok = .tag inner ∧ Tag.ofInner inner = .ifTag p

def IsElse (tok : Token) : Prop := ∃ inner, tok = .tag inner ∧ Tag.ofInner inner = .elseTag

def IsEnd (tok : Token) : Prop := ∃ inner, tok = .tag inner ∧ Tag.ofInner inner = .endTag

/-- What may be literal behind the `else` of a conditional. -/
def IsLate (tok : Token) : Prop := tok.IsText ∨ tok.IsElse

/-- What may be literal outside of all conditionals. -/
def IsStray (tok : Token) : Prop := tok.IsText ∨ tok.IsElse ∨ tok.IsEnd

/-- What may be literal from an `if` on that is never closed. -/
def IsUnclosed (tok : Token) : Prop := tok.IsText ∨ tok.IsElse ∨ tok.IsIf

end Token

mutual

/-- The tags of a mark are what they stand for, and its literals are of one kind. -/
def Mark.Matched (free : Token → Prop) : Mark → Prop
  | .literal pieces => ∀ piece ∈ pieces, free piece
  | .field inner p => Tag.ofInner inner = .field p
  | .ifThen opener p yes closer =>
    Tag.ofInner opener = .ifTag p ∧ MatchedAll Token.IsText yes ∧ Tag.ofInner closer = .endTag
  | .ifElse opener p yes middle no closer =>
    Tag.ofInner opener = .ifTag p ∧ MatchedAll Token.IsText yes ∧ Tag.ofInner middle = .elseTag ∧
      MatchedAll Token.IsLate no ∧ Tag.ofInner closer = .endTag

def MatchedAll (free : Token → Prop) : List Mark → Prop
  | [] => True
  | m :: ms => m.Matched free ∧ MatchedAll free ms

end

/-- The marks of a whole template. -/
def Balanced (ms : List Mark) : Prop :=
  ∃ closed unclosed, ms = closed ++ unclosed ∧ MatchedAll Token.IsStray closed ∧
    MatchedAll Token.IsUnclosed unclosed ∧
    ∀ first ∈ unclosed.head?, ∃ tok, tok.IsIf ∧ first = .literal [tok]

section
variable {free other : Token → Prop} {ms : List Mark} {m : Mark} {tok : Token}

theorem matchedAll_iff : MatchedAll free ms ↔ ∀ m ∈ ms, m.Matched free := by
  induction ms with
  | nil => simp [MatchedAll]
  | cons m ms ih => rw [MatchedAll, ih, List.forall_mem_cons]

theorem matchedAll_append {others : List Mark} :
    MatchedAll free (ms ++ others) ↔ MatchedAll free ms ∧ MatchedAll free others := by
  simp only [matchedAll_iff, List.forall_mem_append]

theorem matchedAll_reverse : MatchedAll free ms.reverse ↔ MatchedAll free ms := by
  simp only [matchedAll_iff, List.mem_reverse]

/-- Only the literals outside of conditionals are of a kind that may change. -/
theorem Mark.Matched.mono (h : m.Matched free) (hfree : ∀ tok, free tok → other tok) :
    m.Matched other := by
  cases m with
  | literal pieces => exact fun piece hpiece => hfree piece (h piece hpiece)
  | field inner p => exact h
  | ifThen opener p yes closer => exact h
  | ifElse opener p yes middle no closer => exact h

theorem MatchedAll.mono (h : MatchedAll free ms) (hfree : ∀ tok, free tok → other tok) :
    MatchedAll other ms :=
  matchedAll_iff.2 fun m hm => (matchedAll_iff.1 h m hm).mono hfree

theorem matched_singleton (h : free tok) : (Mark.literal [tok]).Matched free := by
  intro piece hpiece
  rwa [List.mem_singleton.1 hpiece]

theorem MatchedAll.joinPiece (h : MatchedAll free ms) (htok : free tok) :
    MatchedAll free (joinPiece tok ms) := by
  unfold Template.joinPiece
  split
  · obtain ⟨hpieces, hrest⟩ := h
    refine ⟨?_, hrest⟩
    intro piece hpiece
    rcases List.mem_append.1 hpiece with hpiece | hpiece
    · exact hpieces piece hpiece
    · rwa [List.mem_singleton.1 hpiece]
  · exact ⟨matched_singleton htok, h⟩

end

namespace Level
variable {free : Token → Prop} {l : Level} {m : Mark} {tok : Token}

theorem matchedAll_marks_iff :
    MatchedAll free l.marks ↔ MatchedAll free l.block ∧ MatchedAll free l.before := by
  rw [marks, matchedAll_reverse, matchedAll_append]

theorem matchedAll_put (h : MatchedAll free l.marks) (hm : m.Matched free) :
    MatchedAll free (l.put m).marks := by
  obtain ⟨hblock, hbefore⟩ := matchedAll_marks_iff.1 h
  exact matchedAll_marks_iff.2 ⟨⟨hm, hblock⟩, hbefore⟩

theorem matchedAll_join (h : MatchedAll free l.marks) (htok : free tok) :
    MatchedAll free (l.join tok).marks := by
  obtain ⟨hblock, hbefore⟩ := matchedAll_marks_iff.1 h
  exact matchedAll_marks_iff.2 ⟨hblock.joinPiece htok, hbefore⟩

theorem matchedAll_stray (h : MatchedAll free l.marks) (htok : free tok) :
    MatchedAll free (l.stray tok).marks := by
  have hall : MatchedAll free (l.block ++ l.before) := matchedAll_reverse.1 h
  exact matchedAll_marks_iff.2 ⟨trivial, matched_singleton htok, hall⟩

theorem matchedAll_late (h : MatchedAll free l.marks) (htok : free tok) :
    MatchedAll free (l.late tok).marks := by
  have hall : MatchedAll free (l.block ++ l.before) := matchedAll_reverse.1 h
  exact matchedAll_marks_iff.2 ⟨trivial, hall.joinPiece htok⟩

end Level

/-- What may be literal inside of the innermost open conditional. -/
def freeIn : List Frame → Token → Prop
  | [] => Token.IsStray
  | f :: _ => if f.divided.isSome then Token.IsLate else Token.IsText

/-- The open conditionals, each in a level that is matched. -/
def Open : List Frame → Prop
  | [] => True
  | f :: rest =>
    Tag.ofInner f.opener = .ifTag f.p ∧ MatchedAll (freeIn rest) f.enclosing.marks ∧
      (∀ branch ∈ f.divided, MatchedAll Token.IsText branch.1 ∧ Tag.ofInner branch.2 = .elseTag) ∧
      Open rest

namespace Matcher

structure Valid (s : Matcher) : Prop where
  level : MatchedAll (freeIn s.stack) s.level.marks
  stack : Open s.stack

theorem freeIn_of_isText {stack : List Frame} {tok : Token} (h : tok.IsText) : freeIn stack tok := by
  cases stack with
  | nil => exact .inl h
  | cons f rest =>
    rw [freeIn]
    split
    · exact .inl h
    · exact h

theorem matched_close {f : Frame} {ms : List Mark} {closer : Text} (hopener : Tag.ofInner f.opener = .ifTag f.p)
    (hms : MatchedAll (freeIn [f]) ms)
    (hdivided : ∀ branch ∈ f.divided, MatchedAll Token.IsText branch.1 ∧ Tag.ofInner branch.2 = .elseTag)
    (hcloser : Tag.ofInner closer = .endTag) (free : Token → Prop) : (f.close ms closer).Matched free := by
  unfold Frame.close
  rw [freeIn] at hms
  cases h : f.divided with
  | none =>
    rw [h] at hms
    exact ⟨hopener, hms, hcloser⟩
  | some branch =>
    rw [h] at hms
    obtain ⟨hyes, hmiddle⟩ := hdivided branch h
    exact ⟨hopener, hyes, hmiddle, hms, hcloser⟩

theorem Valid.step {s : Matcher} (h : s.Valid) (tok : Token) : (s.step tok).Valid := by
  obtain ⟨level, stack⟩ := s
  obtain ⟨hlevel, hstack⟩ := h
  dsimp only at hlevel hstack
  cases tok with
  | text t => exact ⟨Level.matchedAll_join hlevel (freeIn_of_isText trivial), hstack⟩
  | tag inner =>
    cases htag : Tag.ofInner inner with
    | field p =>
      simp only [Matcher.step, htag]
      exact ⟨Level.matchedAll_put hlevel htag, hstack⟩
    | ifTag p =>
      simp only [Matcher.step, htag]
      exact ⟨trivial, htag, hlevel, by simp, hstack⟩
    | unknown =>
      simp only [Matcher.step, htag]
      exact ⟨Level.matchedAll_join hlevel (freeIn_of_isText htag), hstack⟩
    | endTag =>
      cases stack with
      | nil =>
        simp only [Matcher.step, htag]
        exact ⟨Level.matchedAll_stray hlevel (.inr (.inr ⟨inner, rfl, htag⟩)), hstack⟩
      | cons f rest =>
        simp only [Matcher.step, htag]
        obtain ⟨hopener, henclosing, hdivided, hrest⟩ := hstack
        exact ⟨Level.matchedAll_put henclosing (matched_close hopener hlevel hdivided htag _), hrest⟩
    | elseTag =>
      cases stack with
      | nil =>
        simp only [Matcher.step, htag]
        exact ⟨Level.matchedAll_stray hlevel (.inr (.inl ⟨inner, rfl, htag⟩)), hstack⟩
      | cons f rest =>
        obtain ⟨hopener, henclosing, hdivided, hrest⟩ := hstack
        cases hf : f.divided with
        | none =>
          simp only [Matcher.step, htag, hf]
          simp only [freeIn, hf] at hlevel
          refine ⟨trivial, hopener, henclosing, ?_, hrest⟩
          rintro branch ⟨⟩
          exact ⟨hlevel, htag⟩
        | some branch =>
          simp only [Matcher.step, htag, hf]
          have hlate : freeIn (f :: rest) (.tag inner) := by
            simp only [freeIn, hf]
            exact .inr ⟨inner, rfl, htag⟩
          exact ⟨Level.matchedAll_late hlevel hlate, hopener, henclosing, hdivided, hrest⟩

theorem Valid.foldl {s : Matcher} (h : s.Valid) (ts : List Token) : (ts.foldl Matcher.step s).Valid := by
  induction ts generalizing s with
  | nil => exact h
  | cons tok ts ih => exact ih (h.step tok)

end Matcher

theorem freeIn_cons_isUnclosed {f : Frame} {rest : List Frame} (tok : Token)
    (h : freeIn (f :: rest) tok) : tok.IsUnclosed := by
  rw [freeIn] at h
  split at h
  · rcases h with h | h
    · exact .inl h
    · exact .inr (.inl h)
  · exact .inl h

/-- The contents of the conditionals that are never closed. -/
theorem matchedAll_contents {f : Frame} {ms : List Mark}
    (hdivided : ∀ branch ∈ f.divided, MatchedAll Token.IsText branch.1 ∧ Tag.ofInner branch.2 = .elseTag)
    (hms : MatchedAll Token.IsUnclosed ms) : MatchedAll Token.IsUnclosed (f.contents ms) := by
  unfold Frame.contents
  cases h : f.divided with
  | none => exact hms
  | some branch =>
    obtain ⟨hyes, hmiddle⟩ := hdivided branch h
    have helse : Token.IsUnclosed (.tag branch.2) := .inr (.inl ⟨branch.2, rfl, hmiddle⟩)
    exact matchedAll_append.2 ⟨hyes.mono fun tok => .inl, matched_singleton helse, hms⟩

theorem balanced_foldl_spill {stack : List Frame} (hstack : Open stack) (hne : stack ≠ [])
    {ms : List Mark} (hms : MatchedAll Token.IsUnclosed ms) :
    Balanced (stack.foldl (fun marks f => f.spill marks) ms) := by
  induction stack generalizing ms with
  | nil => exact absurd rfl hne
  | cons f rest ih =>
    obtain ⟨hopener, henclosing, hdivided, hrest⟩ := hstack
    have hif : Token.IsIf (.tag f.opener) := ⟨f.opener, f.p, rfl, hopener⟩
    have hcontents : MatchedAll Token.IsUnclosed (.literal [.tag f.opener] :: f.contents ms) :=
      ⟨matched_singleton (.inr (.inr hif)), matchedAll_contents hdivided hms⟩
    rw [List.foldl_cons, Frame.spill]
    cases rest with
    | nil =>
      refine ⟨f.enclosing.marks, _, rfl, henclosing, hcontents, ?_⟩
      rintro first ⟨⟩
      exact ⟨_, hif, rfl⟩
    | cons g others =>
      exact ih hrest (List.cons_ne_nil _ _)
        (matchedAll_append.2 ⟨henclosing.mono freeIn_cons_isUnclosed, hcontents⟩)

theorem Matcher.Valid.balanced_finish {s : Matcher} (h : s.Valid) : Balanced s.finish := by
  obtain ⟨level, stack⟩ := s
  obtain ⟨hlevel, hstack⟩ := h
  cases stack with
  | nil => exact ⟨level.marks, [], (List.append_nil _).symm, hlevel, trivial, by simp⟩
  | cons f rest =>
    exact balanced_foldl_spill hstack (List.cons_ne_nil _ _) (hlevel.mono freeIn_cons_isUnclosed)

theorem balanced_matching (ts : List Token) : Balanced (matching ts) := by
  have hempty : Matcher.Valid {} := ⟨trivial, trivial⟩
  exact (hempty.foldl ts).balanced_finish

end Template
end ThemedPrompt
