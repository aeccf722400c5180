import ThemedPrompt.Document
import ThemedPrompt.Text.Hex

/-! # Constants, numbers and dates of TOML

A word, or words joined by dots or one space, is read as a whole. A date stands for a record
without known fields. What has the form of a number is unreadable if it has no value, or one
that is too large.
-/
namespace ThemedPrompt
namespace Toml

/-- A sign in front of a text, and what follows it. -/
def sign : Text → Bool × Text
  | '-' :: rest => (true, rest)
  | '+' :: rest => (false, rest)
  | t => (false, t)

def signed (negative : Bool) (n : Nat) : Int := if negative then -n else n

def startsWith (p : Char → Bool) (t : Text) : Bool := t.head?.any p

def endsWith (p : Char → Bool) (t : Text) : Bool := t.getLast?.any p

/-- Underscores stand between digits, so a sign takes none. What the groups hold between their
first and last characters, and how the last one ends, does not matter here. -/
def grouped (isDigit : Char → Bool) (t : Text) : Bool :=
  let groups := Text.splitBy (· = '_') t
  groups.dropLast.all (endsWith isDigit) && groups.tail.all (startsWith isDigit)

def ungrouped (t : Text) : Text := t.filter (· ≠ '_')

def isHexDigit (c : Char) : Bool := (Text.hexValue? c).isSome

/-- An integer counts as long as it fits 128 bits. -/
def ofInteger (n : Int) : Document :=
  if -Nat.pow 2 127 ≤ n ∧ n < Nat.pow 2 128 then .int n else .unreadable

def radixDigit? (radix : Nat) (c : Char) : Option Nat := (Text.hexValue? c).filter (· < radix)

/-- The digits after the mark of a radix. There may be none, but then they have no value. -/
def inRadix? (radix : Nat) (t : Text) : Option Document :=
  let digits := ungrouped t
  if digits.all (fun c => (radixDigit? radix c).isSome) ∧ grouped isHexDigit t then
    some (if digits = [] then .unreadable
      else ofInteger (digits.foldl (fun n c => radix * n + (radixDigit? radix c).getD 0) 0 : Nat))
  else none

/-- The form of a decimal integer: digits without a zero in front. After an underscore other
characters may follow as well, which leaves the integer without a value. -/
def isWhole (t : Text) : Bool :=
  let (_, unsigned) := sign t
  let rest := unsigned.dropWhile Char.isDigit
  unsigned ≠ [] && (unsigned = ['0'] || !startsWith (· = '0') unsigned)
    && (rest = [] || (startsWith (· = '_') rest && grouped isHexDigit t
      && !rest.any fun c => c = ' ' || c = '.' || c = 'e' || c = 'E'))

def whole (t : Text) : Document :=
  let (negative, digits) := sign (ungrouped t)
  if digits.all Char.isDigit then ofInteger (signed negative (Text.natValue digits))
  else .unreadable

/-- An integer as it is written. -/
def integer? (t : Text) : Option Document :=
  match t with
  | '0' :: 'x' :: rest => inRadix? 16 rest
  | '0' :: 'o' :: rest => inRadix? 8 rest
  | '0' :: 'b' :: rest => inRadix? 2 rest
  | t => if isWhole t then some (whole t) else none

/-- The digits at the front of a text, of which there must be one, and what follows them. -/
def digits? (t : Text) : Option (Text × Text) :=
  let inGroup (c : Char) : Bool := c.isDigit || c = '_'
  let digits := ungrouped (t.takeWhile inGroup)
  if digits = [] then none else some (digits, t.dropWhile inGroup)

/-- The digits of a fraction, if a point says that there is one, and what follows them. -/
def fraction? : Text → Option (Text × Text)
  | '.' :: rest => digits? rest
  | t => some ([], t)

/-- The power of ten after the mark of an exponent, if there is one. -/
def exponent? : Text → Option Int
  | [] => some 0
  | c :: rest => do
    let (down, rest) := sign rest
    let (digits, rest) ← digits? rest
    if (c = 'e' ∨ c = 'E') ∧ rest = [] then some (signed down (Text.natValue digits)) else none

/-- A number with a fraction, an exponent, or both: sign, digits and power of ten. -/
def decimal? (t : Text) : Option (Bool × Nat × Int) := do
  let (negative, unsigned) := sign t
  let (whole, rest) ← digits? unsigned
  let (places, exponent) ← fraction? rest
  let power ← exponent? exponent
  if rest ≠ [] ∧ (whole.length = 1 ∨ !startsWith (· = '0') unsigned) ∧ grouped Char.isDigit t then
    some (negative, Text.natValue (whole ++ places), power - places.length)
  else none

def float? (t : Text) : Option Document :=
  let (_, unsigned) := sign t
  if unsigned = "inf".toList ∨ unsigned = "nan".toList then some .nonFinite
  else (decimal? t).map fun (negative, digits, power) =>
    (Magnitude.ofDecimal? digits power).elim .unreadable fun m => .float ⟨negative, m⟩

/-- Exactly so many digits at the front of a text. -/
def fixed? (width : Nat) (t : Text) : Option (Nat × Text) :=
  let ds := t.take width
  if ds.length = width ∧ ds.all Char.isDigit then some (Text.natValue ds, t.drop width) else none

def fixedAfter? (mark : Char) (width : Nat) : Text → Option (Nat × Text)
  | c :: rest => if c = mark then fixed? width rest else none
  | [] => none

def isLeap (year : Nat) : Bool := year % 4 = 0 && (year % 100 ≠ 0 || year % 400 = 0)

def daysIn (year month : Nat) : Nat :=
  if month = 2 then if isLeap year then 29 else 28
  else if month = 4 ∨ month = 6 ∨ month = 9 ∨ month = 11 then 30
  else 31

/-- What follows a valid date at the front of a text. -/
def afterDate? (t : Text) : Option Text := do
  let (year, rest) ← fixed? 4 t
  let (month, rest) ← fixedAfter? '-' 2 rest
  let (day, rest) ← fixedAfter? '-' 2 rest
  if 1 ≤ month ∧ month ≤ 12 ∧ 1 ≤ day ∧ day ≤ daysIn year month then some rest else none

/-- What follows a valid time of day at the front of a text. Seconds may be left out. -/
def afterTime? (t : Text) : Option Text := do
  let (hour, rest) ← fixed? 2 t
  let (minute, rest) ← fixedAfter? ':' 2 rest
  if 23 < hour ∨ 59 < minute then none
  else match rest with
    | ':' :: rest => do
      let (second, rest) ← fixed? 2 rest
      if 60 < second then none
      else match rest with
        | '.' :: rest =>
          if rest.takeWhile Char.isDigit = [] then none else some (rest.dropWhile Char.isDigit)
        | rest => some rest
    | rest => some rest

def isOffset (t : Text) : Bool :=
  match t with
  | [] => true
  | ['Z'] => true
  | ['z'] => true
  | c :: rest =>
    (c = '+' || c = '-') &&
      match fixed? 2 rest with
      | some (hour, rest) =>
        match fixedAfter? ':' 2 rest with
        | some (minute, []) => hour ≤ 23 && minute ≤ 59
        | _ => false
      | none => false

/-- A date, a time of day, or both and perhaps an offset. -/
def isDate (t : Text) : Bool :=
  match afterDate? t with
  | some [] => true
  | some (c :: rest) =>
    (c = 'T' || c = 't' || c = ' ') && (afterTime? rest).elim false isOffset
  | none => afterTime? t = some []

/-- The value that a word stands for. -/
def value? (t : Text) : Option Document :=
  if t = "true".toList then some (.bool true)
  else if t = "false".toList then some (.bool false)
  else match integer? t with
    | some d => some d
    | none => if isDate t then some (.record []) else float? t

end Toml
end ThemedPrompt
