import ThemedPrompt.Document
import ThemedPrompt.Decimal.Shortest

/-! # Numbers in JSON

A number without fraction and exponent that fits 64 bits is an integer, any other is a double.
-/
namespace ThemedPrompt
namespace Json

/-- A number as it is written: digits of the whole part, of the fraction, and the exponent. -/
structure Numeral where
  negative : Bool
  whole : Text
  fraction : Option Text
  exponent : Option (Bool × Text)
deriving DecidableEq, Repr

namespace Numeral

def significandLimit : Nat := Nat.pow 2 64 - 1

/-- Gathers digits while the number fits 64 bits; gives the number and the digits left over. -/
def gather (n : Nat) : Text → Nat × Text
  | [] => (n, [])
  | c :: cs =>
    let next := 10 * n + Text.digitValue c
    if next ≤ significandLimit then gather next cs else (n, c :: cs)

/-- The significand and its power of ten. Later digits of the whole part count as powers of
ten, later digits of the fraction are dropped. -/
def significand (x : Numeral) : Nat × Int :=
  let (n, left) := gather 0 x.whole
  let fraction := x.fraction.getD []
  let (m, dropped) := gather n fraction
  (m, (left.length : Int) - (fraction.length - dropped.length))

/-- Digits of an exponent count as long as they fit 31 bits. -/
def exponentLimit : Nat := Nat.pow 2 31 - 1

def magnitude? (x : Numeral) : Option Magnitude :=
  let (n, place) := x.significand
  let start := Magnitude.ofFraction? n 1
  match x.exponent with
  | none => start.bind (·.scale? place)
  | some (down, digits) =>
    let e := Text.natValue digits
    if exponentLimit < e then if n = 0 ∨ down then some .zero else none
    else start.bind (·.scale? (if down then place - e else place + e))

/-- The integer that the numeral stands for. Minus zero is not one. -/
def int? (x : Numeral) : Option Int :=
  let n := Text.natValue x.whole
  if x.fraction.isSome ∨ x.exponent.isSome then none
  else if x.negative then if 0 < n ∧ n ≤ Nat.pow 2 63 then some (-n) else none
  else if n < Nat.pow 2 64 then some n else none

def toDocument (x : Numeral) : Document :=
  match x.int? with
  | some n => .int n
  | none =>
    match x.magnitude? with
    | some m => .float ⟨x.negative, m⟩
    | none => .unreadable

end Numeral

/-- The shortest digits that read back. The point is written where it falls while the first
digit stands at one of the places from 10⁻⁵ to 10¹⁵; beyond that an exponent with a sign is. -/
def floatText (x : Binary64) : Text :=
  let sign : Text := if x.negative then ['-'] else []
  if x.magnitude.mantissa = 0 then sign ++ "0.0".toList
  else
    let (n, exponent) := x.magnitude.shortest
    let digits := Text.ofNat n
    let point : Int := digits.length + exponent
    sign ++
      if 0 ≤ exponent ∧ point ≤ 16 then
        digits ++ List.replicate exponent.toNat '0' ++ ".0".toList
      else if 0 < point ∧ point ≤ 16 then
        digits.take point.toNat ++ '.' :: digits.drop point.toNat
      else if -5 < point ∧ point ≤ 0 then
        "0.".toList ++ List.replicate (-point).toNat '0' ++ digits
      else
        let tail := digits.drop 1
        digits.take 1 ++ (if tail = [] then [] else '.' :: tail) ++ ['e']
          ++ (if point ≤ 0 then ['-'] else ['+']) ++ Text.ofNat (point - 1).natAbs

end Json
end ThemedPrompt
