import ThemedPrompt.Proofs.Color.Painted
import ThemedPrompt.Proofs.Sgr.Stripped

/-! # Painting over sequences

Text that is painted may hold sequences, whole and broken ones. It is decoded as if the look of the
paint had been there before its first character: the openings leave nothing but that look behind
them, and the reset ends whatever is unfinished.
-/
namespace ThemedPrompt

/-- Nothing is put around a text exactly if it is empty or no colour can be painted. -/
theorem Paint.apply_eq_self_iff (p : Paint) (t : Text) :
    p.apply t = t ↔ t = [] ∨ p.look = Style.plain := by
  rw [← p.openings_eq_nil_iff, apply]
  by_cases hempty : t = []
  · simp [hempty]
  · by_cases hopenings : p.openings = []
    · simp [hopenings]
    · have hlonger : (p.openings ++ t ++ Sgr.reset).length ≠ t.length := by
        have hpos := List.length_pos_iff.2 hopenings
        rw [List.length_append, List.length_append]
        omega
      rw [if_neg hempty, if_neg hopenings]
      exact iff_of_false (fun h => hlonger (congrArg List.length h)) (by simp [hempty, hopenings])

namespace Sgr

/-- The runs of a text in front of which a style has been set. -/
def decodeFrom (s : Style) (t : Text) : List Run := (t.foldl Scanner.step { style := s }).finish

theorem decodeFrom_plain (t : Text) : decodeFrom Style.plain t = decode t := rfl

theorem decodeFrom_eq_runsFrom (s : Style) (t : Text) :
    decodeFrom s t = runsFrom s [] (pieces t) := by
  obtain ⟨hvalid, houtcome⟩ := Scanner.outcome_foldl (s := { style := s }) trivial t []
  rw [decodeFrom, Scanner.finish_eq_outcome hvalid, houtcome]
  simp [Scanner.outcome, Pending.raw]

/-- Text without sequences is one run. -/
theorem decodeFrom_of_hasSequence_eq_false (s : Style) {t : Text} (h : hasSequence t = false) :
    decodeFrom s t = runOf s t := by
  have hliterals := Cut.runsFrom_pieces s (.last t)
  rw [decodeFrom_eq_runsFrom, pieces_of_hasSequence_eq_false h]
  exact hliterals

theorem decode_append_reset (t : Text) : decode (t ++ reset) = decode t := by
  have hdecode := decode_append_sequence_append t isSequence_reset []
  rw [List.append_nil] at hdecode
  rw [hdecode]
  simp [pieces, runsFrom, runOf]

theorem decode_openings_append (p : Paint) (t : Text) :
    decode (p.openings ++ t) = decodeFrom p.look t := by
  have hstart : Scanner.Plain {} := ⟨rfl, rfl⟩
  rw [decode, List.foldl_append, Scanner.foldl_openings hstart, decodeFrom]
  split
  · next hlook => rw [hlook]
  · rfl

/-- Painted text is decoded as if its look had been set before it. The reset behind it is not seen,
even if the text ends in an unfinished sequence. -/
theorem decode_apply (p : Paint) (t : Text) : decode (p.apply t) = decodeFrom p.look t ∧
    (p.apply t = t ↔ t = [] ∨ p.look = Style.plain) ∧
    (t ≠ [] → hasSequence t = false → decode (p.apply t) = [⟨t, p.look⟩]) := by
  have hdecode : decode (p.apply t) = decodeFrom p.look t := by
    by_cases hself : p.apply t = t
    · rw [hself]
      rcases (p.apply_eq_self_iff t).1 hself with rfl | hlook
      · rfl
      · rw [hlook, decodeFrom_plain]
    · obtain ⟨hne, hlook⟩ := not_or.1 (mt (p.apply_eq_self_iff t).2 hself)
      have hopenings := mt p.openings_eq_nil_iff.1 hlook
      rw [Paint.apply, if_neg hne, if_neg hopenings, decode_append_reset, decode_openings_append]
  refine ⟨hdecode, p.apply_eq_self_iff t, ?_⟩
  intro hne hplain
  rw [hdecode, decodeFrom_of_hasSequence_eq_false _ hplain, runOf, if_neg hne]

example : decode (Paint.apply { foreground := some "#FF0000".toList } "a\x1b[1mb\x1b[3".toList) =
    [⟨"a".toList, { foreground := some "#ff0000".toList }⟩,
      ⟨"b\x1b[3".toList, { foreground := some "#ff0000".toList, bold := true }⟩] := by
  decide +kernel

end Sgr
end ThemedPrompt
