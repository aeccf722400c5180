import ThemedPrompt.Engine

/-! # Shared engines

A shared engine stands at a place in a store, and is reached through handles. A handle is locked to
change the engine at its place, or only to look at it; its clones have the same place.
-/
namespace ThemedPrompt

/-- A handle: the place of an engine in a store. -/
structure SharedEngine where
  place : Nat
deriving DecidableEq, Repr

namespace SharedEngine

abbrev Store := List Engine

/-- A new engine stands behind all others. -/
def new (store : Store) (e : Engine) : Store × SharedEngine := (store ++ [e], ⟨store.length⟩)

def clone (h : SharedEngine) : SharedEngine := ⟨h.place⟩

/-- Looks at the engine of a handle, if there is one at its place. -/
def read? {α : Type} (h : SharedEngine) (store : Store) (look : Engine → α) : Option α :=
  store[h.place]?.map look

/-- Puts an engine into the place of the one that a handle has. -/
def write? {α : Type} (h : SharedEngine) (store : Store) (change : Engine → Engine × α) :
    Option (Store × α) :=
  store[h.place]?.map fun e =>
    let (e, a) := change e
    (store.set h.place e, a)

/-- What a handle passes on to be done to its engine. -/
inductive Change
  | loadText (json : Text)
  | setTheme (t : Theme)
  | update (u : Update)
  | updateLeniently (d : Document)

/-- What a handle passes on to be read off its engine. -/
inductive Look
  | context
  | info
  | render (now : Moment)
  | decode (t : Text)

inductive Request
  | change (c : Change)
  | look (l : Look)

def Change.operation : Change → Engine.Operation
  | .loadText json => .loadText json
  | .setTheme t => .setTheme t
  | .update u => .update u
  | .updateLeniently d => .updateLeniently d

def Look.operation : Look → Engine.Operation
  | .context => .readContext
  | .info => .readInfo
  | .render now => .render now
  | .decode t => .decode t

def Request.operation : Request → Engine.Operation
  | .change c => c.operation
  | .look l => l.operation

def perform? (h : SharedEngine) (store : Store) : Request → Option (Store × Engine.Answer)
  | .change c => h.write? store (·.perform c.operation)
  | .look l => (h.read? store fun e => (e.perform l.operation).2).map (store, ·)

end SharedEngine

/-- Engines with the handles that there are of them, in the order of their making. -/
structure Sharing where
  store : SharedEngine.Store := []
  handles : List SharedEngine := []

namespace Sharing

/-- A first handle of one more engine. -/
def make (s : Sharing) (e : Engine) : Sharing :=
  let (store, h) := SharedEngine.new s.store e
  ⟨store, s.handles ++ [h]⟩

def clone? (s : Sharing) (handle : Nat) : Option Sharing :=
  s.handles[handle]?.map fun h => { s with handles := s.handles ++ [h.clone] }

def perform? (s : Sharing) (handle : Nat) (r : SharedEngine.Request) :
    Option (Sharing × Engine.Answer) := do
  let h ← s.handles[handle]?
  let (store, answer) ← h.perform? s.store r
  return ({ s with store := store }, answer)

/-- The engine that a handle reaches. -/
def engine? (s : Sharing) (handle : Nat) : Option Engine :=
  s.handles[handle]?.bind fun h => h.read? s.store id

end Sharing
end ThemedPrompt
