import Mathlib.Data.List.Induction
import ThemedPrompt.Engine

/-! # Histories of engines

What an engine holds after any operations can be told from their list: the last theme that was
accepted, each field as it was last set, and the fallback that it was made with.
-/
namespace ThemedPrompt
namespace Engine

/-- The theme that an operation installs, unless it is rejected. -/
def Operation.accepted? : Operation → Option Theme
  | .loadText json => (Theme.ofText json).toOption
  | .loadDocument d => (Theme.ofDocument d).toOption
  | .setTheme t => some t
  | _ => none

/-- The update that an operation merges. -/
def Operation.update? : Operation → Option Update
  | .update u => some u
  | .updateLeniently d => some (Update.ofDocument d)
  | _ => none

/-- What the last of the operations that give a value gives. -/
def latest? {α : Type} (value? : Operation → Option α) (operations : List Operation) : Option α :=
  (operations.filterMap value?).getLast?

/-- A field of the last update that sets it, or else its value at first. -/
def lastSet {α : Type} (field : Update → Option α) (initial : α) (operations : List Operation) : α :=
  (latest? (fun op => op.update?.bind field) operations).getD initial

/-- Each field as it was last set. -/
def contextAfter (c : Context) (operations : List Operation) : Context where
  userName := lastSet Update.userName c.userName operations
  hostName := lastSet Update.hostName c.hostName operations
  shell := lastSet Update.shell c.shell operations
  workingDirectory := lastSet Update.workingDirectory c.workingDirectory operations
  home := lastSet Update.home c.home operations
  system := lastSet Update.system c.system operations
  wsl := lastSet Update.wsl c.wsl operations
  root := lastSet Update.root c.root operations
  code := lastSet Update.code c.code operations

/-- The engine that operations leave behind. -/
def history (e : Engine) (operations : List Operation) : Engine where
  theme := (latest? Operation.accepted? operations).or e.theme
  context := contextAfter e.context operations
  fallback := e.fallback

theorem latest?_append_singleton {α : Type} (value? : Operation → Option α)
    (operations : List Operation) (op : Operation) :
    latest? value? (operations ++ [op]) = (value? op).or (latest? value? operations) := by
  rw [latest?, List.filterMap_append, List.getLast?_append]
  cases h : value? op with
  | none => simp [h, latest?]
  | some v => simp [h]

theorem lastSet_append_singleton {α : Type} (field : Update → Option α) (initial : α)
    (operations : List Operation) (op : Operation) :
    lastSet field initial (operations ++ [op]) =
      (op.update?.bind field).getD (lastSet field initial operations) := by
  rw [lastSet, latest?_append_singleton]
  cases op.update?.bind field with
  | none => rfl
  | some v => rfl

theorem run_append (e : Engine) (first second : List Operation) :
    e.run (first ++ second) = (e.run first).run second :=
  List.foldl_append

/-- What any one operation does. -/
theorem perform_fst (e : Engine) (op : Operation) :
    (e.perform op).1 =
      { theme := op.accepted?.or e.theme
        context := op.update?.elim e.context e.context.merge
        fallback := e.fallback } := by
  cases op with
  | loadText json =>
    simp only [perform, Operation.accepted?, Operation.update?]
    cases Theme.ofText json <;> rfl
  | loadDocument d =>
    simp only [perform, Operation.accepted?, Operation.update?]
    cases Theme.ofDocument d <;> rfl
  | setTheme t => rfl
  | update u => rfl
  | updateLeniently d => rfl
  | render now => rfl
  | decode t => rfl
  | readTheme => rfl
  | readInfo => rfl
  | readContext => rfl

theorem history_append_singleton (e : Engine) (operations : List Operation) (op : Operation) :
    e.history (operations ++ [op]) = ((e.history operations).perform op).1 := by
  rw [perform_fst]
  simp only [history, contextAfter, latest?_append_singleton, lastSet_append_singleton,
    Option.or_assoc]
  cases op.update? with
  | none => rfl
  | some u => rfl

theorem run_eq_history (e : Engine) (operations : List Operation) :
    e.run operations = e.history operations := by
  induction operations using List.reverseRecOn with
  | nil => rfl
  | append_singleton operations op ih => rw [run_append, ih, history_append_singleton]; rfl

/-- Nothing but an accepted theme and an update leaves a trace. -/
theorem perform_fst_of_none {op : Operation} (htheme : op.accepted? = none)
    (hupdate : op.update? = none) (e : Engine) : (e.perform op).1 = e := by
  rw [perform_fst, htheme, hupdate]
  rfl

theorem perform_perform_comm {load update : Operation} (hload : load.update? = none)
    (hupdate : update.accepted? = none) (e : Engine) :
    ((e.perform load).1.perform update).1 = ((e.perform update).1.perform load).1 := by
  simp only [perform_fst, hload, hupdate]
  rfl

/-- Loads and updates may change places anywhere in a history. -/
theorem run_swap {load update : Operation} (hload : load.update? = none)
    (hupdate : update.accepted? = none) (e : Engine) (before after : List Operation) :
    e.run (before ++ load :: update :: after) = e.run (before ++ update :: load :: after) := by
  rw [run_append, run_append]
  exact congrArg (·.run after) (perform_perform_comm hload hupdate (e.run before))

end Engine
end ThemedPrompt
