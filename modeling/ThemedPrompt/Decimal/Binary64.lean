import ThemedPrompt.Text.Basic

/-! # Double precision magnitudes

A magnitude is `mantissa · 2 ^ exponent` with at most 53 bits in the mantissa. Every operation
is exact arithmetic on naturals followed by one rounding to nearest, ties to even.
-/
namespace ThemedPrompt

structure Magnitude where
  mantissa : Nat
  exponent : Int
deriving DecidableEq, Repr

/-- A finite double; zero keeps its sign. -/
structure Binary64 where
  negative : Bool
  magnitude : Magnitude
deriving DecidableEq, Repr

namespace Magnitude

def zero : Magnitude := ⟨0, -1074⟩

/-- The quotient rounded to nearest, ties to even. -/
def roundDiv (num den : Nat) : Nat :=
  let q := num / den
  let r := num % den
  if 2 * r < den ∨ (2 * r = den ∧ q % 2 = 0) then q else q + 1

/-- The fraction whose quotient is `num / den` in units of `2 ^ e`. -/
def inUnits (num den : Nat) : (e : Int) → Nat × Nat
  | .ofNat k => (num, den * Nat.pow 2 k)
  | .negSucc k => (num * Nat.pow 2 (k + 1), den)

/-- The double nearest to a fraction, unless that is beyond the largest finite one. -/
def ofFraction? (num den : Nat) : Option Magnitude :=
  if num = 0 then some zero
  else
    let guess : Int := (num.log2 : Int) - den.log2 - 53
    let (n, d) := inUnits num den guess
    let e := max (-1074) (if n / d < Nat.pow 2 53 then guess else guess + 1)
    let (n, d) := inUnits num den e
    let m := roundDiv n d
    let result : Magnitude := if m = Nat.pow 2 53 then ⟨Nat.pow 2 52, e + 1⟩ else ⟨m, e⟩
    if result.exponent ≤ 971 then some result else none

def numerator (m : Magnitude) : Nat := m.mantissa * Nat.pow 2 m.exponent.toNat

def denominator (m : Magnitude) : Nat := Nat.pow 2 (-m.exponent).toNat

def mul? (a b : Magnitude) : Option Magnitude :=
  ofFraction? (a.numerator * b.numerator) (a.denominator * b.denominator)

def div? (a b : Magnitude) : Option Magnitude :=
  ofFraction? (a.numerator * b.denominator) (a.denominator * b.numerator)

/-- The double nearest to a power of ten. -/
def powerOfTen? (k : Nat) : Option Magnitude := ofFraction? (Nat.pow 10 k) 1

/-- Scales by a power of ten with one rounding for each step of at most 308 places. -/
def scale? (m : Magnitude) (exponent : Int) : Option Magnitude :=
  if m.mantissa = 0 then some zero
  else if 0 ≤ exponent then
    if exponent ≤ 308 then (powerOfTen? exponent.toNat).bind m.mul? else none
  else if -308 ≤ exponent then (powerOfTen? (-exponent).toNat).bind m.div?
  else do
    let small ← (powerOfTen? 308).bind m.div?
    small.scale? (exponent + 308)
termination_by (-exponent).toNat
decreasing_by omega

/-- The double nearest to `digits · 10 ^ exponent`. -/
def ofDecimal? (digits : Nat) (exponent : Int) : Option Magnitude :=
  let places := (Text.ofNat digits).length + exponent
  if digits = 0 ∨ places < -400 then some zero
  else if places > 400 then none
  else ofFraction? (digits * Nat.pow 10 exponent.toNat) (Nat.pow 10 (-exponent).toNat)

end Magnitude
end ThemedPrompt
