import ThemedPrompt.Text.Basic
import ThemedPrompt.Decimal.Binary64

/-! # Documents

The values that JSON and TOML texts stand for. A record keeps its entries in the order and the
number in which they were written. Records of a known shape are read field by field.
-/
namespace ThemedPrompt

/-- An infinity or NaN is `nonFinite`. A part without meaning, such as half of a surrogate pair,
is `unreadable`: a reader may skip it but not use it. -/
inductive Document
  | null
  | bool (b : Bool)
  | int (n : Int)
  | float (x : Binary64)
  | nonFinite
  | text (t : Text)
  | list (items : List Document)
  | record (entries : List (Text × Document))
  | unreadable
deriving Repr

namespace Document

/-- The last value under a key. -/
def get? (key : Text) : Document → Option Document
  | .record entries => entries.reverse.lookup key
  | _ => none

def text? : Document → Option Text
  | .text t => some t
  | _ => none

def bool? : Document → Option Bool
  | .bool b => some b
  | _ => none

def int? : Document → Option Int
  | .int n => some n
  | _ => none

def int32? : Document → Option Int32
  | .int n => if -2147483648 ≤ n ∧ n ≤ 2147483647 then some (Int32.ofInt n) else none
  | _ => none

/-- A value that may be absent: null stands for absence. -/
def optional? {α : Type} (read : Document → Option α) : Document → Option (Option α)
  | .null => some none
  | d => (read d).map some

mutual

/-- No part of the document is unreadable. -/
def readable : Document → Bool
  | .unreadable => false
  | .list items => readableItems items
  | .record entries => readableEntries entries
  | _ => true

def readableItems : List Document → Bool
  | [] => true
  | d :: ds => d.readable && readableItems ds

def readableEntries : List (Text × Document) → Bool
  | [] => true
  | (_, d) :: rest => d.readable && readableEntries rest

end

mutual

/-- How deep containers are nested. -/
def depth : Document → Nat
  | .list items => depthOfItems items + 1
  | .record entries => depthOfEntries entries + 1
  | _ => 0

def depthOfItems : List Document → Nat
  | [] => 0
  | d :: ds => max d.depth (depthOfItems ds)

def depthOfEntries : List (Text × Document) → Nat
  | [] => 0
  | (_, d) :: rest => max d.depth (depthOfEntries rest)

end

/-- What a record may hold that is neither a field nor read: entries under other names, or items
of a list beyond the fields. Where such entries are read, they must be readable; where such
items are, there may be none. -/
inductive Unread
  | entries
  | items
deriving DecidableEq, Repr

/-- The entries of a record with the given fields. A list stands for the first fields in
their order. -/
def entries? (unread : Unread) (fields : List Text) : Document → Option (List (Text × Document))
  | .record entries =>
    if unread = .entries ∨ entries.all fun (name, d) => fields.contains name || d.readable then
      some entries
    else none
  | .list items =>
    if unread = .items ∨ items.length ≤ fields.length then some (fields.zip items) else none
  | _ => none

/-- The values under any of the names, in order. -/
def valuesOf (names : List Text) (entries : List (Text × Document)) : List Document :=
  (entries.filter fun entry => names.contains entry.1).map Prod.snd

/-- Reads the field with the given names. Two values are one too many; without a value the
field has its default. -/
def field? {α : Type} (entries : List (Text × Document)) (names : List Text)
    (read : Document → Option α) (default : Option α) : Option α :=
  match valuesOf names entries with
  | [] => default
  | [d] => read d
  | _ => none

/-- One entry for each key, the last one written. -/
def lastEntries (entries : List (Text × Document)) : List (Text × Document) :=
  entries.foldr (fun entry rest => if (rest.lookup entry.1).isSome then rest else entry :: rest) []

mutual

/-- Every record has one entry for each key, the last one written. -/
def settled : Document → Document
  | .list items => .list (settledItems items)
  | .record entries => .record (lastEntries (settledEntries entries))
  | d => d

def settledItems : List Document → List Document
  | [] => []
  | d :: ds => d.settled :: settledItems ds

def settledEntries : List (Text × Document) → List (Text × Document)
  | [] => []
  | (key, d) :: rest => (key, d.settled) :: settledEntries rest

end

end Document
end ThemedPrompt
