import Mathlib.Tactic.IntervalCases
import ThemedPrompt.Text.Basic

/-! # Decimal numerals

A numeral is a text of digits, one at least. What a number is written with is a numeral, and its
value is the number.
-/
namespace ThemedPrompt
namespace Text

def IsNumeral (t : Text) : Prop := t ≠ [] ∧ ∀ c ∈ t, c.isDigit = true

instance : DecidablePred IsNumeral := fun t =>
  decidable_of_iff (t ≠ [] ∧ t.all Char.isDigit = true) (by rw [IsNumeral, List.all_eq_true])

theorem isDigit_iff_bounds (c : Char) : c.isDigit = true ↔ 48 ≤ c.toNat ∧ c.toNat ≤ 57 := by
  simp only [Char.isDigit, Bool.and_eq_true, decide_eq_true_eq]
  exact Iff.rfl

theorem toNat_digit {n : Nat} (hn : n < 10) : (digit n).toNat = 48 + n := by
  interval_cases n <;> rfl

theorem isDigit_digit {n : Nat} (hn : n < 10) : (digit n).isDigit = true := by
  rw [isDigit_iff_bounds, toNat_digit hn]
  omega

theorem digitValue_digit {n : Nat} (hn : n < 10) : digitValue (digit n) = n := by
  rw [digitValue, toNat_digit hn]
  omega

/-- The ten digits are the digits of the numbers below ten. -/
theorem digit_digitValue {c : Char} (hc : c.isDigit = true) :
    digitValue c < 10 ∧ digit (digitValue c) = c := by
  obtain ⟨hlow, hhigh⟩ := (isDigit_iff_bounds c).1 hc
  have hc : 48 + digitValue c = c.toNat := by
    rw [digitValue]
    omega
  exact ⟨by omega, by rw [digit, hc, Char.ofNat_toNat]⟩

theorem natValue_append_digit (t : Text) (c : Char) :
    natValue (t ++ [c]) = 10 * natValue t + digitValue c := by
  simp [natValue]

theorem isNumeral_ofNat (n : Nat) : IsNumeral (ofNat n) := by
  fun_induction ofNat n with
  | case1 n hn =>
    refine ⟨by simp, ?_⟩
    intro c hc
    rw [List.mem_singleton.1 hc]
    exact isDigit_digit hn
  | case2 n hn ih =>
    refine ⟨by simp, ?_⟩
    intro c hc
    rcases List.mem_append.1 hc with hc | hc
    · exact ih.2 c hc
    · rw [List.mem_singleton.1 hc]
      exact isDigit_digit (Nat.mod_lt n (by omega))

@[simp] theorem natValue_ofNat (n : Nat) : natValue (ofNat n) = n := by
  fun_induction ofNat n with
  | case1 n hn => simp [natValue, digitValue_digit hn]
  | case2 n hn ih =>
    rw [natValue_append_digit, ih, digitValue_digit (Nat.mod_lt n (by omega))]
    omega

theorem ofNat_zero : ofNat 0 = ['0'] := by
  rw [ofNat]
  rfl

/-- A number is written without zeros in front. -/
theorem head_ofNat {n : Nat} (hn : 0 < n) : ∀ c ∈ (ofNat n).head?, c ≠ '0' := by
  fun_induction ofNat n with
  | case1 n hlt =>
    rintro c hc rfl
    have hdigit : digit n = '0' := Option.some.inj hc
    have htoNat := toNat_digit hlt
    rw [hdigit] at htoNat
    simp at htoNat
    omega
  | case2 n hge ih =>
    obtain ⟨c, cs, hfront⟩ := List.exists_cons_of_ne_nil (isNumeral_ofNat (n / 10)).1
    have hc := ih (by omega)
    rw [hfront] at hc ⊢
    exact hc

theorem ofInt_ne_nil (n : Int) : ofInt n ≠ [] := by
  cases n with
  | ofNat n => exact (isNumeral_ofNat n).1
  | negSucc n => exact List.cons_ne_nil _ _

theorem mem_ofInt {n : Int} : ∀ c ∈ ofInt n, c = '-' ∨ c.isDigit = true := by
  intro c hc
  cases n with
  | ofNat n => exact .inr ((isNumeral_ofNat n).2 c hc)
  | negSucc n =>
    rcases List.mem_cons.1 hc with rfl | hc
    · exact .inl rfl
    · exact .inr ((isNumeral_ofNat (n + 1)).2 c hc)

end Text
end ThemedPrompt
