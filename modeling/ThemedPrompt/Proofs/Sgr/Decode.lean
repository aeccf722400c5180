import ThemedPrompt.Proofs.Sgr.Scanner

/-! # Decoding by leftmost sequences

The runs of a text are the stretches between its leftmost sequences, each in the style that the
codes of all sequences before it lead to. Put together they are the text without its sequences.
-/
namespace ThemedPrompt
namespace Sgr
open Text

namespace Cut

/-- The stretches that are not empty, in the style that the sequences before them give. -/
def runs (s : Style) : Cut → List Run
  | .last stretch => runOf s stretch
  | .before stretch found rest => runOf s stretch ++ rest.runs (s.apply (codesOf found))

def literals : Cut → Text
  | .last stretch => stretch
  | .before stretch _ rest => stretch ++ rest.literals

theorem runsFrom_pieces (s : Style) (cut : Cut) : runsFrom s [] cut.pieces = cut.runs s := by
  induction cut generalizing s with
  | last stretch =>
    have h := runsFrom_literals s [] stretch []
    simpa [pieces, runs, runsFrom] using h
  | before stretch found rest ih =>
    rw [pieces, runsFrom_literals, runsFrom, ih]
    simp [runs]

theorem filterMap_pieces (cut : Cut) : cut.pieces.filterMap Piece.literal? = cut.literals := by
  have hliterals (stretch : Text) :
      (stretch.map Piece.literal).filterMap Piece.literal? = stretch := by
    induction stretch with
    | nil => rfl
    | cons c cs ih => simp [Piece.literal?, ih]
  induction cut with
  | last stretch => exact hliterals stretch
  | before stretch found rest ih =>
    simp [pieces, literals, hliterals, List.filterMap_cons, Piece.literal?, ih]

end Cut

theorem flatMap_content_runsFrom (s : Style) (literal : Text) (ps : List Piece) :
    (runsFrom s literal ps).flatMap Run.content =
      literal.reverse ++ ps.filterMap Piece.literal? := by
  have hrun (s : Style) (t : Text) : (runOf s t).flatMap Run.content = t := by
    by_cases h : t = [] <;> simp [runOf, h]
  induction ps generalizing s literal with
  | nil => simp [runsFrom, hrun]
  | cons p ps ih =>
    cases p with
    | literal c => simp [runsFrom, ih, Piece.literal?]
    | codes codes => simp [runsFrom, hrun, ih, List.filterMap_cons, Piece.literal?]

theorem content_ne_nil_of_mem_runOf {s : Style} {t : Text} {r : Run} (hr : r ∈ runOf s t) :
    r.content ≠ [] := by
  unfold runOf at hr
  split at hr
  · cases hr
  · next hne =>
    rw [List.mem_singleton.1 hr]
    exact hne

theorem content_ne_nil_of_mem_runsFrom {s : Style} {literal : Text} {ps : List Piece} {r : Run}
    (hr : r ∈ runsFrom s literal ps) : r.content ≠ [] := by
  induction ps generalizing s literal with
  | nil => exact content_ne_nil_of_mem_runOf hr
  | cons p ps ih =>
    cases p with
    | literal c => exact ih hr
    | codes codes =>
      rcases List.mem_append.1 hr with hr | hr
      · exact content_ne_nil_of_mem_runOf hr
      · exact ih hr

theorem flatMap_content_decode (t : Text) : (decode t).flatMap Run.content = strip t := by
  rw [decode_eq_runsFrom, flatMap_content_runsFrom]
  rfl

theorem hasSequence_iff {t : Text} : hasSequence t = true ↔
    ∃ before found after, t = before ++ (found ++ after) ∧ IsSequence found := by
  -- The first cut decides: there is none exactly if no sequence stands anywhere.
  obtain ⟨cut, hcut, hpieces⟩ := exists_leftmostCut t
  rw [hasSequence, ← hpieces]
  cases hcut with
  | last hnone =>
    refine iff_of_false ?_ ?_
    · simp [Cut.pieces, Piece.literal?]
    · rintro ⟨b, f, a, heq, hf⟩
      exact hnone b f a heq hf
  | before hfirst hrest =>
    refine iff_of_true ?_ ⟨_, _, _, hfirst.split, hfirst.isSequence⟩
    simp [Cut.pieces, Piece.literal?]

/-- The scanner and the cut at the leftmost words of the pattern agree on every text. -/
theorem decode_eq_runs_of_leftmostCut (t : Text) :
    ∃ cut, LeftmostCut t cut ∧ (∀ other, LeftmostCut t other → other = cut) ∧
      decode t = cut.runs Style.plain ∧
      strip t = cut.literals ∧
      (decode t).flatMap Run.content = strip t ∧
      (∀ r ∈ decode t, r.content ≠ []) ∧
      (hasSequence t = true ↔
        ∃ before found after, t = before ++ (found ++ after) ∧ IsSequence found) := by
  obtain ⟨cut, hcut, hpieces⟩ := exists_leftmostCut t
  refine ⟨cut, hcut, fun other hother => hother.unique hcut, ?_, ?_,
    flatMap_content_decode t, ?_, hasSequence_iff⟩
  · rw [decode_eq_runsFrom, ← hpieces, Cut.runsFrom_pieces]
  · rw [strip, ← hpieces, Cut.filterMap_pieces]
  · intro r hr
    rw [decode_eq_runsFrom] at hr
    exact content_ne_nil_of_mem_runsFrom hr

end Sgr
end ThemedPrompt
