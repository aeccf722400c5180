import ThemedPrompt.Document

/-! # Tables of TOML

A document is built from assignments and headers. A table that no header has opened can be
added to: by headers of tables inside it, by a header of its own, or by dotted keys. Once dotted
keys have gone through it, no header can open it.
-/
namespace ThemedPrompt
namespace Toml

/-- What has been done with a table: a header has opened it, headers have only passed through it,
or dotted keys have gone through it. -/
inductive Origin
  | header
  | passed
  | dotted
deriving DecidableEq, Repr

/-- What stands under a key. A closed item cannot be added to; of several tables under one key
the last comes first. -/
inductive Item
  | closed (d : Document)
  | table (origin : Origin) (entries : List (Text × Item))
  | tables (elements : List (List (Text × Item)))

abbrev Entries := List (Text × Item)

/-- Puts an item in the place of that under the same key, or behind all others. -/
def Entries.set (key : Text) (item : Item) : Entries → Entries
  | [] => [(key, item)]
  | entry :: rest => if entry.1 = key then (key, item) :: rest else entry :: set key item rest

/-- Changes the table at the end of a path. Tables that are missing on the way are made. -/
def descend (byDots : Bool) (change : Origin → Entries → Option Entries) :
    List Text → Origin → Entries → Option Entries
  | [], origin, entries => change origin entries
  | key :: path, _, entries =>
    match entries.lookup key with
    | none => do
      let origin := if byDots then Origin.dotted else Origin.passed
      let inner ← descend byDots change path origin []
      return Entries.set key (.table origin inner) entries
    | some (.table origin inner) =>
      if byDots ∧ origin = .header then none
      else do
        let origin := if byDots then Origin.dotted else origin
        let inner ← descend byDots change path origin inner
        return Entries.set key (.table origin inner) entries
    | some (.tables (last :: others)) => do
      let last ← descend byDots change path .header last
      return Entries.set key (.tables (last :: others)) entries
    | some (.tables []) => none
    | some (.closed _) => none

def insertNew (key : Text) (item : Item) (entries : Entries) : Option Entries :=
  if (entries.lookup key).isSome then none else some (entries ++ [(key, item)])

/-- Assigns to a dotted key. The last table of an array of tables cannot get the value. -/
def assign (path : List Text) (d : Document) (entries : Entries) : Option Entries :=
  match path.getLast? with
  | none => none
  | some key =>
    let way := path.dropLast
    descend true
      (fun origin inner =>
        if way ≠ [] ∧ origin ≠ .dotted then none else insertNew key (.closed d) inner)
      way .header entries

/-- Opens the table of a header. -/
def openTable (path : List Text) (root : Entries) : Option Entries :=
  match path.getLast? with
  | none => none
  | some key =>
    descend false
      (fun _ inner =>
        match inner.lookup key with
        | none => some (inner ++ [(key, .table .header [])])
        | some (.table .passed entries) => some (Entries.set key (.table .header entries) inner)
        | some _ => none)
      path.dropLast .header root

/-- Opens one more table of an array of tables. -/
def openElement (path : List Text) (root : Entries) : Option Entries :=
  match path.getLast? with
  | none => none
  | some key =>
    descend false
      (fun _ inner =>
        match inner.lookup key with
        | none => some (inner ++ [(key, .tables [[]])])
        | some (.tables elements) => some (Entries.set key (.tables ([] :: elements)) inner)
        | some _ => none)
      path.dropLast .header root

mutual

def Item.toDocument : Item → Document
  | .closed d => d
  | .table _ entries => .record (documentEntries entries)
  | .tables elements => .list (documentElements elements).reverse

def documentEntries : List (Text × Item) → List (Text × Document)
  | [] => []
  | (key, item) :: rest => (key, item.toDocument) :: documentEntries rest

def documentElements : List (List (Text × Item)) → List Document
  | [] => []
  | entries :: rest => .record (documentEntries entries) :: documentElements rest

end

inductive Statement
  | assign (path : List Text) (d : Document)
  | table (path : List Text)
  | element (path : List Text)

/-- The document so far, and the path of the last header. -/
structure Draft where
  root : Entries := []
  place : List Text := []

def Draft.add (draft : Draft) : Statement → Option Draft
  | .assign path d => do
    let root ← descend false (fun _ entries => assign path d entries) draft.place .header draft.root
    return { draft with root := root }
  | .table path => do return ⟨← openTable path draft.root, path⟩
  | .element path => do return ⟨← openElement path draft.root, path⟩

def ofStatements? (statements : List Statement) : Option Document := do
  let draft ← statements.foldlM Draft.add {}
  return .record (documentEntries draft.root)

/-- The record of an inline table. -/
def inlineTable? (assignments : List (List Text × Document)) : Option Document := do
  let entries ← assignments.foldlM (fun entries (path, d) => assign path d entries) []
  return .record (documentEntries entries)

end Toml
end ThemedPrompt
