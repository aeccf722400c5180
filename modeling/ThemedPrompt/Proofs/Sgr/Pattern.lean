import Mathlib.Computability.RegularExpressions
import ThemedPrompt.Proofs.Text.Numeral
import ThemedPrompt.Proofs.Text.Cutting
import ThemedPrompt.Sgr.Sequence

/-! # The pattern of sequences

Sequences are the words of a regular expression. The reader finds such a word at the front of a
text exactly if there is one, and reads the codes between its separators.
-/
namespace ThemedPrompt
namespace Sgr
open RegularExpression Text

def oneOf : List Char → RegularExpression Char
  | [] => 0
  | c :: cs => char c + oneOf cs

def digitPattern : RegularExpression Char :=
  oneOf ['0', '1', '2', '3', '4', '5', '6', '7', '8', '9']

def numberPattern : RegularExpression Char := digitPattern * star digitPattern

/-- ESC, `[`, numbers with `;` between them, and `m`. -/
def pattern : RegularExpression Char :=
  char esc * (char '[' * (numberPattern * (star (char ';' * numberPattern) * char 'm')))

def IsSequence (t : Text) : Prop := t ∈ pattern.matches'

instance : DecidablePred IsSequence := fun t => inferInstanceAs (Decidable (t ∈ pattern.matches'))

def written (numbers : List Text) : Text := esc :: '[' :: (join [';'] numbers ++ ['m'])

/-- The codes of a sequence, one for each piece between its separators. -/
def codesOf (found : Text) : List Nat :=
  (splitBy (· = ';') ((found.drop 2).dropLast)).map code

theorem mem_oneOf {cs : List Char} {t : Text} : t ∈ (oneOf cs).matches' ↔ ∃ c ∈ cs, t = [c] := by
  induction cs with
  | nil => simp [oneOf]
  | cons c cs ih =>
    simp only [oneOf, matches'_add, matches'_char, Language.mem_add, ih, List.mem_cons,
      exists_eq_or_imp]
    exact Iff.rfl

theorem mem_digitPattern {t : Text} :
    t ∈ digitPattern.matches' ↔ ∃ c, c.isDigit = true ∧ t = [c] := by
  have hdigits : ∀ n < 10, digit n ∈ ['0', '1', '2', '3', '4', '5', '6', '7', '8', '9'] := by decide
  rw [digitPattern, mem_oneOf]
  constructor
  · rintro ⟨c, hc, rfl⟩
    have hall : ['0', '1', '2', '3', '4', '5', '6', '7', '8', '9'].all Char.isDigit = true := by
      decide
    exact ⟨c, List.all_eq_true.1 hall c hc, rfl⟩
  · rintro ⟨c, hc, rfl⟩
    obtain ⟨hlt, heq⟩ := digit_digitValue hc
    exact ⟨c, heq ▸ hdigits _ hlt, rfl⟩

theorem mem_star_digitPattern {t : Text} :
    t ∈ (star digitPattern).matches' ↔ ∀ c ∈ t, c.isDigit = true := by
  rw [matches'_star, Language.mem_kstar]
  constructor
  · rintro ⟨words, rfl, hwords⟩ c hc
    obtain ⟨word, hw, hc⟩ := List.mem_flatten.1 hc
    obtain ⟨d, hd, rfl⟩ := mem_digitPattern.1 (hwords word hw)
    rwa [List.mem_singleton.1 hc]
  · intro ht
    refine ⟨t.map ([·]), ?_, ?_⟩
    · induction t with
      | nil => rfl
      | cons c cs ih => simpa using ih (fun d hd => ht d (List.mem_cons_of_mem c hd))
    · intro word hw
      obtain ⟨c, hc, rfl⟩ := List.mem_map.1 hw
      exact mem_digitPattern.2 ⟨c, ht c hc, rfl⟩

theorem mem_numberPattern {t : Text} : t ∈ numberPattern.matches' ↔ IsNumeral t := by
  rw [numberPattern, matches'_mul, Language.mem_mul]
  constructor
  · rintro ⟨first, hfirst, rest, hrest, rfl⟩
    obtain ⟨c, hc, rfl⟩ := mem_digitPattern.1 hfirst
    have hrest := mem_star_digitPattern.1 hrest
    exact ⟨by simp, by simpa [hc] using hrest⟩
  · rintro ⟨hne, ht⟩
    obtain ⟨c, cs, rfl⟩ := List.exists_cons_of_ne_nil hne
    exact ⟨[c], mem_digitPattern.2 ⟨c, ht c List.mem_cons_self, rfl⟩, cs,
      mem_star_digitPattern.2 (fun d hd => ht d (List.mem_cons_of_mem c hd)), rfl⟩

theorem join_semicolon (n : Text) (ns : List Text) :
    join [';'] (n :: ns) = n ++ ns.flatMap (';' :: ·) := by
  induction ns generalizing n with
  | nil => simp [join]
  | cons k ns ih => simp [join, ih]

theorem mem_further_numbers {t : Text} : t ∈ (star (char ';' * numberPattern)).matches' ↔
    ∃ ns : List Text, (∀ n ∈ ns, IsNumeral n) ∧ t = ns.flatMap (';' :: ·) := by
  have hword {w : Text} : w ∈ (char ';' * numberPattern).matches' ↔
      ∃ n, IsNumeral n ∧ w = ';' :: n := by
    rw [matches'_mul, Language.mem_mul]
    constructor
    · rintro ⟨_, rfl, n, hn, rfl⟩
      exact ⟨n, mem_numberPattern.1 hn, rfl⟩
    · rintro ⟨n, hn, rfl⟩
      exact ⟨[';'], rfl, n, mem_numberPattern.2 hn, rfl⟩
  rw [matches'_star, Language.mem_kstar]
  constructor
  · rintro ⟨words, rfl, hwords⟩
    induction words with
    | nil => exact ⟨[], by simp, rfl⟩
    | cons w ws ih =>
      obtain ⟨n, hn, rfl⟩ := hword.1 (hwords w List.mem_cons_self)
      obtain ⟨ns, hns, heq⟩ := ih (fun v hv => hwords v (List.mem_cons_of_mem _ hv))
      exact ⟨n :: ns, by simpa [hn] using hns, by simp [heq]⟩
  · rintro ⟨ns, hns, rfl⟩
    refine ⟨ns.map (';' :: ·), by simp [List.flatMap], ?_⟩
    intro w hw
    obtain ⟨n, hn, rfl⟩ := List.mem_map.1 hw
    exact hword.2 ⟨n, hns n hn, rfl⟩

/-- The words of the pattern are the sequences of numerals, of one at least. -/
theorem isSequence_iff {t : Text} : IsSequence t ↔
    ∃ numbers, numbers ≠ [] ∧ (∀ n ∈ numbers, IsNumeral n) ∧ t = written numbers := by
  simp only [IsSequence, pattern, matches'_mul, matches'_char, Language.mem_mul]
  constructor
  · rintro ⟨_, rfl, _, ⟨_, rfl, _, ⟨n, hn, _, ⟨further, hfurther, _, rfl, rfl⟩, rfl⟩, rfl⟩, rfl⟩
    obtain ⟨ns, hns, rfl⟩ := mem_further_numbers.1 hfurther
    refine ⟨n :: ns, List.cons_ne_nil n ns, ?_, ?_⟩
    · simpa [mem_numberPattern.1 hn] using hns
    · simp [written, join_semicolon]
  · rintro ⟨numbers, hne, hall, rfl⟩
    obtain ⟨n, ns, rfl⟩ := List.exists_cons_of_ne_nil hne
    have hn := mem_numberPattern.2 (hall n List.mem_cons_self)
    have hns := mem_further_numbers.2 ⟨ns, fun k hk => hall k (List.mem_cons_of_mem n hk), rfl⟩
    refine ⟨[esc], rfl, _, ⟨['['], rfl, _, ⟨n, hn, _, ⟨_, hns, ['m'], rfl, rfl⟩, rfl⟩, rfl⟩, ?_⟩
    simp [written, join_semicolon]

theorem isSequence_written {numbers : List Text} (hne : numbers ≠ [])
    (hall : ∀ n ∈ numbers, IsNumeral n) : IsSequence (written numbers) :=
  isSequence_iff.2 ⟨numbers, hne, hall, rfl⟩

theorem ne_of_isDigit {c d : Char} (hc : c.isDigit = true) (hd : d.isDigit = false) : c ≠ d := by
  rintro rfl
  exact Bool.noConfusion (hc.symm.trans hd)

theorem codesOf_written {numbers : List Text} (hne : numbers ≠ [])
    (hall : ∀ n ∈ numbers, IsNumeral n) : codesOf (written numbers) = numbers.map code := by
  have hbody : ((written numbers).drop 2).dropLast = join [';'] numbers := by
    simp [written]
  have hsplit := splitBy_join (· = ';') ';' rfl hne
    (fun n hn c hc => decide_eq_false (ne_of_isDigit ((hall n hn).2 c hc) rfl))
  rw [codesOf, hbody, hsplit]

end Sgr
end ThemedPrompt
