import ThemedPrompt.Proofs.Sgr.Isolation

/-! # Whole and truncated forms

The codes of a sequence are read form by form: a code that stands alone, or a selector with the
arguments of its colour. Codes without a truncated form may be issued together with others or
before them. Of a truncated form the selector alone is skipped, and what is there of its arguments
is read as codes.
-/
namespace ThemedPrompt
namespace Sgr
open Text

/-- Codes in which every selector that is read as a command has the arguments of its form: one
behind 5 and three behind 2. A selector in front of any other code has no form. -/
inductive Whole : List Nat → Prop
  | nil : Whole []
  | code {c : Nat} {rest : List Nat} : (∀ layer : Layer, c ≠ layer.selector) → Whole rest →
      Whole (c :: rest)
  | formless (layer : Layer) {c : Nat} {rest : List Nat} : c ≠ 5 → c ≠ 2 → Whole (c :: rest) →
      Whole (layer.selector :: c :: rest)
  | indexed (layer : Layer) (n : Nat) {rest : List Nat} : Whole rest →
      Whole (layer.selector :: 5 :: n :: rest)
  | trueColor (layer : Layer) (r g b : Nat) {rest : List Nat} : Whole rest →
      Whole (layer.selector :: 2 :: r :: g :: b :: rest)

/-- What may stand behind a selector at the end of the codes, if its form is not whole. -/
inductive Truncated : List Nat → Prop
  | bare : Truncated []
  | indexed : Truncated [5]
  | trueColor {channels : List Nat} : channels.length ≤ 2 → Truncated (2 :: channels)

namespace Command

theorem ofCodes_indexed (layer : Layer) (n : Nat) (rest : List Nat) :
    ofCodes (layer.selector :: 5 :: n :: rest) = indexed layer n :: ofCodes rest := by
  cases layer <;> rfl

theorem ofCodes_trueColor (layer : Layer) (r g b : Nat) (rest : List Nat) :
    ofCodes (layer.selector :: 2 :: r :: g :: b :: rest) =
      trueColor layer r g b :: ofCodes rest := by
  cases layer <;> rfl

/-- A code at which no whole form starts is read alone. -/
theorem ofCodes_alone {c : Nat} {rest : List Nat}
    (hindexed : ∀ (layer : Layer) n after, c :: rest ≠ layer.selector :: 5 :: n :: after)
    (htrueColor : ∀ (layer : Layer) r g b after,
      c :: rest ≠ layer.selector :: 2 :: r :: g :: b :: after) :
    ofCodes (c :: rest) = (ofCode? c).toList ++ ofCodes rest := by
  rw [ofCodes]
  · rintro n after rfl rfl
    exact hindexed .foreground n after rfl
  · rintro r g b after rfl rfl
    exact htrueColor .foreground r g b after rfl
  · rintro n after rfl rfl
    exact hindexed .background n after rfl
  · rintro r g b after rfl rfl
    exact htrueColor .background r g b after rfl

@[simp] theorem ofCode?_selector (layer : Layer) : ofCode? layer.selector = none := by
  cases layer <;> rfl

theorem ofCodes_of_ne_selector {c : Nat} (hc : ∀ layer : Layer, c ≠ layer.selector)
    (rest : List Nat) : ofCodes (c :: rest) = (ofCode? c).toList ++ ofCodes rest :=
  ofCodes_alone (fun layer _ _ h => hc layer (List.cons.inj h).1)
    (fun layer _ _ _ _ h => hc layer (List.cons.inj h).1)

theorem ofCodes_formless (layer : Layer) {c : Nat} (h₅ : c ≠ 5) (h₂ : c ≠ 2) (rest : List Nat) :
    ofCodes (layer.selector :: c :: rest) = ofCodes (c :: rest) := by
  rw [ofCodes_alone, ofCode?_selector]
  · rfl
  · intro other n after h
    exact h₅ (List.cons.inj (List.cons.inj h).2).1
  · intro other r g b after h
    exact h₂ (List.cons.inj (List.cons.inj h).2).1

/-- Two codes are too few for a whole form. -/
theorem ofCodes_of_length_le {codes : List Nat} (h : codes.length ≤ 2) :
    ofCodes codes = codes.filterMap ofCode? := by
  induction codes with
  | nil => rfl
  | cons c rest ih =>
    have hrest : rest.length ≤ 2 := by
      rw [List.length_cons] at h
      omega
    rw [ofCodes_alone, ih hrest]
    · cases hc : ofCode? c <;> simp [hc]
    · rintro layer n after heq
      simp [heq] at h
    · rintro layer r g b after heq
      simp [heq] at h

/-- The selector of a truncated form is skipped, and the codes behind it are read alone. -/
theorem ofCodes_truncated {arguments : List Nat} (h : Truncated arguments) (layer : Layer) :
    ofCodes (layer.selector :: arguments) = arguments.filterMap ofCode? := by
  cases h with
  | bare =>
    rw [ofCodes_of_length_le (by simp)]
    simp
  | indexed =>
    rw [ofCodes_of_length_le (by simp)]
    simp
  | @trueColor channels hshort =>
    have htwo (layer : Layer) : 2 ≠ layer.selector := by cases layer <;> decide
    rw [ofCodes_alone, ofCode?_selector, ofCodes_of_ne_selector htwo, ofCodes_of_length_le hshort]
    · rfl
    · rintro other n after heq
      simp at heq
    · rintro other r g b after heq
      simp [(List.cons.inj (List.cons.inj heq).2).2] at hshort

/-- The commands of a whole part do not depend on the codes behind it. -/
theorem ofCodes_append {a : List Nat} (ha : Whole a) (b : List Nat) :
    ofCodes (a ++ b) = ofCodes a ++ ofCodes b := by
  induction ha with
  | nil => rfl
  | @code c rest hc _ ih =>
    rw [List.cons_append, ofCodes_of_ne_selector hc, ofCodes_of_ne_selector hc, ih,
      List.append_assoc]
  | @formless layer c rest h₅ h₂ _ ih =>
    rw [List.cons_append, List.cons_append, ofCodes_formless layer h₅ h₂,
      ofCodes_formless layer h₅ h₂]
    exact ih
  | indexed layer n _ ih => simp only [List.cons_append, ofCodes_indexed, ih]
  | trueColor layer r g b _ ih => simp only [List.cons_append, ofCodes_trueColor, ih]

/-- Each command sets something, so not every style is the result of one. -/
theorem exists_ne_run (command : Command) : ∃ s, ∀ before, run before command ≠ s := by
  cases command with
  | reset => exact ⟨{ bold := true }, fun _ => by simp [run, Style.plain]⟩
  | bold on => exact ⟨{ bold := !on }, fun _ h => by simpa [run] using congrArg Style.bold h⟩
  | italic on => exact ⟨{ italic := !on }, fun _ h => by simpa [run] using congrArg Style.italic h⟩
  | underline on =>
    exact ⟨{ underline := !on }, fun _ h => by simpa [run] using congrArg Style.underline h⟩
  | color layer value =>
    obtain ⟨other, hother⟩ := exists_ne value
    cases layer with
    | foreground =>
      exact ⟨{ foreground := other }, fun _ h => hother (congrArg Style.foreground h).symm⟩
    | background =>
      exact ⟨{ background := other }, fun _ h => hother (congrArg Style.background h).symm⟩

/-- No commands but none at all leave every style as it is. -/
theorem eq_nil_of_foldl_run {commands : List Command}
    (h : ∀ s, commands.foldl run s = s) : commands = [] := by
  rcases commands.eq_nil_or_concat with hnil | ⟨before, last, rfl⟩
  · exact hnil
  · obtain ⟨s, hs⟩ := exists_ne_run last
    have hlast := h s
    rw [List.concat_eq_append, List.foldl_append] at hlast
    exact absurd hlast (hs _)

end Command

theorem apply_append {a : List Nat} (ha : Whole a) (b : List Nat) (s : Style) :
    s.apply (a ++ b) = (s.apply a).apply b := by
  rw [Style.apply, Command.ofCodes_append ha, List.foldl_append]
  rfl

/-- A truncated form is skipped in every style exactly if none of the codes behind its selector
is a command of its own. Those that are commands are run. -/
theorem apply_truncated_eq_iff {arguments : List Nat} (h : Truncated arguments) (layer : Layer) :
    (∀ p, Whole p → ∀ s : Style, s.apply (p ++ layer.selector :: arguments) =
      (arguments.filterMap Command.ofCode?).foldl Command.run (s.apply p)) ∧
    ((∀ p, Whole p → ∀ s : Style, s.apply (p ++ layer.selector :: arguments) = s.apply p) ↔
      ∀ c ∈ arguments, Command.ofCode? c = none) := by
  have hrun : ∀ p, Whole p → ∀ s : Style, s.apply (p ++ layer.selector :: arguments) =
      (arguments.filterMap Command.ofCode?).foldl Command.run (s.apply p) := by
    intro p hp s
    rw [apply_append hp, Style.apply, Command.ofCodes_truncated h]
  refine ⟨hrun, ?_⟩
  rw [← List.filterMap_eq_nil_iff]
  constructor
  · intro hskipped
    -- with no codes in front, every style is there to be changed
    refine Command.eq_nil_of_foldl_run ?_
    intro s
    exact (hrun [] .nil s).symm.trans (hskipped [] .nil s)
  · intro hnone p hp s
    rw [hrun p hp, hnone]
    rfl

theorem apply_truncated_unknownChannels :
    Truncated [2, 7, 9] ∧ Style.plain.apply ([1] ++ [38, 2, 7, 9]) = Style.plain.apply [1] := by
  have hshort : Truncated [2, 7, 9] := .trueColor (by decide)
  have hwhole : Whole [1] := .code (by rintro (_ | _) <;> decide) .nil
  exact ⟨hshort, (apply_truncated_eq_iff hshort .foreground).2.2 (by decide) [1] hwhole _⟩

/-- The one channel that is there is read as the code of a named colour. -/
theorem apply_truncated_red_ne : Whole [] ∧ Truncated [2, 31] ∧
    Style.plain.apply ([] ++ Layer.foreground.selector :: [2, 31]) ≠ Style.plain.apply [] :=
  ⟨.nil, .trueColor (by decide), by decide⟩

theorem runsFrom_pieces_append (s : Style) {found : Text} (hfound : IsSequence found) (t : Text) :
    runsFrom s [] (pieces (found ++ t)) = runsFrom (s.apply (codesOf found)) [] (pieces t) := by
  rw [pieces_of_sequence? (sequence?_append hfound t)]
  rfl

/-- Whole codes may stand in one sequence with other codes or in a sequence before them, however
their numbers are written; and the arguments of a form behind them do no more than choose its
colour. -/
theorem apply_append_of_whole {a : List Nat} (ha : Whole a) :
    (∀ b (s : Style), s.apply (a ++ b) = (s.apply a).apply b) ∧
    (∀ numbers others : List Text, numbers.map code = a → numbers ≠ [] → others ≠ [] →
      (∀ n ∈ numbers ++ others, IsNumeral n) → ∀ x y,
        decode (x ++ (written (numbers ++ others) ++ y)) =
          decode (x ++ (written numbers ++ (written others ++ y)))) ∧
    (∀ (layer : Layer) n after (s : Style), s.apply (a ++ layer.selector :: 5 :: n :: after) =
      (Command.run (s.apply a) (.indexed layer n)).apply after) ∧
    ∀ (layer : Layer) r g b after (s : Style),
      s.apply (a ++ layer.selector :: 2 :: r :: g :: b :: after) =
        (Command.run (s.apply a) (.trueColor layer r g b)).apply after := by
  refine ⟨apply_append ha, ?_, ?_, ?_⟩
  · rintro numbers others rfl hnumbers hothers hall x y
    have hjoint : numbers ++ others ≠ [] := by simp [hnumbers]
    obtain ⟨hfirst, hsecond⟩ := List.forall_mem_append.1 hall
    rw [decode_append_sequence_append x (isSequence_written hjoint hall),
      decode_append_sequence_append x (isSequence_written hnumbers hfirst),
      runsFrom_pieces_append _ (isSequence_written hothers hsecond), codesOf_written hjoint hall,
      codesOf_written hnumbers hfirst, codesOf_written hothers hsecond, List.map_append,
      apply_append ha]
  · intro layer n after s
    rw [apply_append ha, Style.apply, Command.ofCodes_indexed]
    rfl
  · intro layer r g b after s
    rw [apply_append ha, Style.apply, Command.ofCodes_trueColor]
    rfl

theorem apply_append_of_whole_selectorIndex : Whole [48, 5, 38] ∧
    Style.plain.apply ([48, 5, 38] ++ [5, 1]) =
      { background := some "#00afd7".toList, bold := true } ∧
    decode "x\x1b[3\x1b[48;5;38;05;1my".toList =
      decode "x\x1b[3\x1b[48;5;38m\x1b[05;1my".toList := by
  have hwhole : Whole [48, 5, 38] := .indexed .background 38 .nil
  obtain ⟨happly, hdecode, -⟩ := apply_append_of_whole hwhole
  refine ⟨hwhole, ?_, ?_⟩
  · rw [happly]
    decide
  · exact hdecode ["48".toList, "5".toList, "38".toList] ["05".toList, "1".toList] (by decide)
      (by decide) (by decide) (by decide) "x\x1b[3".toList "y".toList

example : Style.plain.apply ([38, 5] ++ [1]) ≠ (Style.plain.apply [38, 5]).apply [1] := by decide

end Sgr
end ThemedPrompt
