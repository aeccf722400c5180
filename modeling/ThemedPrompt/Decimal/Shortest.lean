import ThemedPrompt.Text.Basic
import ThemedPrompt.Decimal.Binary64

/-! # Shortest decimals

The shortest decimal that rounds to a given double, and of those the nearest. All numbers are
whole multiples of one power of ten, so that comparisons are exact.
-/
namespace ThemedPrompt
namespace Magnitude

/-- The reals that round to a magnitude, and the magnitude itself, in units of `10 ^ unit`. -/
structure Interval where
  low : Nat
  value : Nat
  high : Nat
  closed : Bool
  unit : Int

/-- Below a power of two the neighbour is half as far away. -/
def interval (m : Magnitude) : Interval :=
  let below := if m.mantissa = Nat.pow 2 52 ∧ -1074 < m.exponent then 1 else 2
  let e := m.exponent - 2
  let factor := Nat.pow 2 e.toNat * Nat.pow 5 (-e).toNat
  ⟨(4 * m.mantissa - below) * factor, 4 * m.mantissa * factor, (4 * m.mantissa + 2) * factor,
    m.mantissa % 2 == 0, min e 0⟩

def Interval.contains (i : Interval) (n : Nat) : Bool :=
  if i.closed then i.low ≤ n && n ≤ i.high else i.low < n && n < i.high

/-- The multiple of `10 ^ place` in the interval that is nearest to its value; of two that are
equally near, the even one. -/
def Interval.onGrid? (i : Interval) (place : Nat) : Option Nat :=
  let step := Nat.pow 10 place
  let below := i.value / step
  let lowFits := i.contains (below * step)
  let highFits := i.contains ((below + 1) * step)
  let lowNearer := 2 * (i.value % step) < step + (1 - below % 2)
  if lowFits && (!highFits || lowNearer) then some below
  else if highFits then some (below + 1)
  else none

/-- The first grid with a hit, from the coarsest down. -/
def Interval.search (i : Interval) : (place : Nat) → Nat × Int
  | 0 => (i.value, i.unit)
  | place + 1 =>
    match i.onGrid? (place + 1) with
    | some digits => (digits, i.unit + (place + 1))
    | none => i.search place

/-- Digits without zeros at the end, and the power of ten they are multiplied by. -/
def withoutZeros : (fuel : Nat) → Nat × Int → Nat × Int
  | 0, d => d
  | fuel + 1, (digits, exponent) =>
    if digits ≠ 0 ∧ digits % 10 = 0 then withoutZeros fuel (digits / 10, exponent + 1)
    else (digits, exponent)

def shortest (m : Magnitude) : Nat × Int :=
  let i := m.interval
  let places := (Text.ofNat i.value).length
  withoutZeros places (i.search (places - 1))

end Magnitude
end ThemedPrompt
