import ThemedPrompt.Engine.Shared
import ThemedPrompt.Proofs.Engine.History
import ThemedPrompt.Startup

/-! # Engines behind handles

The clones of a handle all reach one engine, and no other handle does. So the engine has the history
of all operations that came through any of the clones, whatever is done with other engines meanwhile.
-/
namespace ThemedPrompt

namespace SharedEngine

/-- What is only looked at stays as it is. -/
theorem Look.perform_fst (l : Look) (e : Engine) : (e.perform l.operation).1 = e := by
  cases l <;> rfl

end SharedEngine

namespace Sharing
open SharedEngine (Change Look Request Store)

/-- What is done with handles, each told by its number. -/
inductive Action
  | make (e : Engine)
  | clone (handle : Nat)
  | perform (handle : Nat) (r : Request)

def act? (s : Sharing) : Action → Option Sharing
  | .make e => some (s.make e)
  | .clone handle => s.clone? handle
  | .perform handle r => (s.perform? handle r).map Prod.fst

def run? (s : Sharing) (actions : List Action) : Option Sharing := actions.foldlM act? s

/-- Which handles are of one engine, by an account of their making: a clone is of the engine that its
original is of, and a handle of another engine is not. An action needs a handle made before. -/
def kinAfter? (kin : List Bool) : Action → Option (List Bool)
  | .make _ => some (kin ++ [false])
  | .clone handle => kin[handle]?.map fun b => kin ++ [b]
  | .perform handle _ => kin[handle]?.map fun _ => kin

/-- The operation of an action through one of these handles. -/
def operation? (kin : List Bool) : Action → Option Engine.Operation
  | .perform handle r => if kin[handle]? = some true then some r.operation else none
  | _ => none

/-- The handles of one engine after actions, and the operations through them. -/
def account? (kin : List Bool) : List Action → Option (List Bool × List Engine.Operation)
  | [] => some (kin, [])
  | action :: actions => do
    let (last, operations) ← account? (← kinAfter? kin action) actions
    return (last, (operation? kin action).toList ++ operations)

section
variable {handle : Nat} {s : Sharing} {h : SharedEngine} {e : Engine}

theorem perform?_change (hhandle : s.handles[handle]? = some h) (he : s.store[h.place]? = some e)
    (c : Change) : s.perform? handle (.change c) =
      some ({ s with store := s.store.set h.place (e.perform c.operation).1 },
        (e.perform c.operation).2) := by
  simp [perform?, hhandle, SharedEngine.perform?, SharedEngine.write?, he]

theorem perform?_look (hhandle : s.handles[handle]? = some h) (he : s.store[h.place]? = some e)
    (l : Look) : s.perform? handle (.look l) = some (s, (e.perform l.operation).2) := by
  simp [perform?, hhandle, SharedEngine.perform?, SharedEngine.read?, he]

end

/-- The engine at a place, and the handles that have this place. -/
structure Holds (place : Nat) (e : Engine) (kin : List Bool) (s : Sharing) : Prop where
  length : kin.length = s.handles.length
  inside : ∀ h : SharedEngine, h ∈ s.handles → h.place < s.store.length
  engine : s.store[place]? = some e
  here_iff : ∀ (handle : Nat) (h : SharedEngine), s.handles[handle]? = some h →
    (kin[handle]? = some true ↔ h.place = place)

namespace Holds
variable {place handle : Nat} {e : Engine} {kin : List Bool} {s : Sharing}

theorem place_lt (hs : Holds place e kin s) : place < s.store.length :=
  (List.getElem?_eq_some_iff.1 hs.engine).1

theorem exists_handle (hs : Holds place e kin s) {b : Bool} (hkin : kin[handle]? = some b) :
    ∃ h, s.handles[handle]? = some h := by
  have hlt := (List.getElem?_eq_some_iff.1 hkin).1
  rw [hs.length] at hlt
  exact ⟨_, List.getElem?_eq_getElem hlt⟩

theorem engine? (hs : Holds place e kin s) (hkin : kin[handle]? = some true) :
    s.engine? handle = some e := by
  obtain ⟨h, hhandle⟩ := hs.exists_handle hkin
  have hplace := (hs.here_iff handle h hhandle).1 hkin
  rw [Sharing.engine?, hhandle, Option.bind_some, SharedEngine.read?, hplace, hs.engine]
  rfl

/-- One handle more, of this engine or of another one. -/
theorem append (hs : Holds place e kin s) (more : Store) {h : SharedEngine} {b : Bool}
    (hinside : h.place < (s.store ++ more).length) (hhere : b = true ↔ h.place = place) :
    Holds place e (kin ++ [b]) ⟨s.store ++ more, s.handles ++ [h]⟩ where
  length := by simp [hs.length]
  inside := by
    intro h' hmem
    rcases List.mem_append.1 hmem with hmem | hmem
    · have hlt := hs.inside h' hmem
      rw [List.length_append]
      omega
    · rwa [List.mem_singleton.1 hmem]
  engine := by rw [List.getElem?_append_left hs.place_lt, hs.engine]
  here_iff := by
    intro handle h' hhandle
    rcases Nat.lt_or_ge handle s.handles.length with hlt | hge
    · rw [List.getElem?_append_left hlt] at hhandle
      rw [List.getElem?_append_left (hs.length ▸ hlt)]
      exact hs.here_iff handle h' hhandle
    · obtain rfl : handle = s.handles.length := by
        have hlt := (List.getElem?_eq_some_iff.1 hhandle).1
        rw [List.length_append, List.length_singleton] at hlt
        omega
      rw [List.getElem?_append_right (Nat.le_refl _), Nat.sub_self] at hhandle
      obtain rfl : h = h' := Option.some.inj hhandle
      rw [← hs.length, List.getElem?_append_right (Nat.le_refl _), Nat.sub_self]
      exact Option.some_inj.trans hhere

theorem make (hs : Holds place e kin s) (other : Engine) :
    Holds place e (kin ++ [false]) (s.make other) := by
  refine hs.append [other] (h := ⟨s.store.length⟩) (by simp) ?_
  have hlt := hs.place_lt
  simp only [Bool.false_eq_true, false_iff]
  omega

theorem clone (hs : Holds place e kin s) {b : Bool} (hkin : kin[handle]? = some b) :
    ∃ s', s.clone? handle = some s' ∧ Holds place e (kin ++ [b]) s' := by
  obtain ⟨h, hhandle⟩ := hs.exists_handle hkin
  refine ⟨⟨s.store, s.handles ++ [h]⟩, by rw [clone?, hhandle]; rfl, ?_⟩
  have hinside := hs.inside h (List.mem_of_getElem? hhandle)
  have hhere := hs.here_iff handle h hhandle
  rw [hkin, Option.some_inj] at hhere
  have happend := hs.append [] (by rwa [List.append_nil]) hhere
  rwa [List.append_nil] at happend

/-- Another engine in some place. -/
theorem put (hs : Holds place e kin s) {h : SharedEngine} (hinside : h.place < s.store.length)
    (e' : Engine) : Holds place (if h.place = place then e' else e) kin
      { s with store := s.store.set h.place e' } where
  length := hs.length
  inside := fun h' hmem => by
    rw [List.length_set]
    exact hs.inside h' hmem
  engine := by
    by_cases hplace : h.place = place
    · rw [if_pos hplace, ← hplace]
      exact List.getElem?_set_self hinside
    · rw [if_neg hplace]
      exact (List.getElem?_set_ne hplace).trans hs.engine
  here_iff := hs.here_iff

/-- A request is answered by the engine of the handle it goes through, and changes no other. -/
theorem perform (hs : Holds place e kin s) {b : Bool} (hkin : kin[handle]? = some b) (r : Request) :
    ∃ s' answer, s.perform? handle r = some (s', answer) ∧
      Holds place (if b = true then (e.perform r.operation).1 else e) kin s' ∧
      (b = true → answer = (e.perform r.operation).2) := by
  obtain ⟨h, hhandle⟩ := hs.exists_handle hkin
  have hinside := hs.inside h (List.mem_of_getElem? hhandle)
  have hhere := hs.here_iff handle h hhandle
  rw [hkin, Option.some_inj] at hhere
  obtain ⟨e', he'⟩ : ∃ e', s.store[h.place]? = some e' := ⟨_, List.getElem?_eq_getElem hinside⟩
  have hsame (hb : b = true) : e' = e := by
    rw [hhere.1 hb, hs.engine] at he'
    exact (Option.some.inj he').symm
  cases r with
  | change c =>
    refine ⟨_, _, perform?_change hhandle he' c, ?_, fun hb => hsame hb ▸ rfl⟩
    have hput := hs.put hinside (e'.perform c.operation).1
    by_cases hb : b = true
    · obtain rfl := hsame hb
      rw [if_pos hb]
      rwa [if_pos (hhere.1 hb)] at hput
    · rw [if_neg hb]
      rwa [if_neg (mt hhere.2 hb)] at hput
  | look l =>
    refine ⟨_, _, perform?_look hhandle he' l, ?_, fun hb => hsame hb ▸ rfl⟩
    rw [Request.operation, l.perform_fst, ite_self]
    exact hs

theorem act (hs : Holds place e kin s) {action : Action} {kin' : List Bool}
    (hkin : kinAfter? kin action = some kin') :
    ∃ s', s.act? action = some s' ∧ Holds place (e.run (operation? kin action).toList) kin' s' := by
  cases action with
  | make other =>
    obtain rfl := Option.some.inj hkin
    exact ⟨_, rfl, hs.make other⟩
  | clone handle =>
    obtain ⟨b, hb, rfl⟩ := Option.map_eq_some_iff.1 hkin
    exact hs.clone hb
  | perform handle r =>
    obtain ⟨b, hb, rfl⟩ := Option.map_eq_some_iff.1 hkin
    obtain ⟨s', answer, hperform, hs', -⟩ := hs.perform hb r
    refine ⟨s', by rw [act?, hperform]; rfl, ?_⟩
    rw [operation?, hb]
    cases b <;> exact hs'

/-- The engine at a place has the history of what went through its handles. -/
theorem run (hs : Holds place e kin s) {actions : List Action} {last : List Bool}
    {operations : List Engine.Operation} (haccount : account? kin actions = some (last, operations)) :
    ∃ s', s.run? actions = some s' ∧ Holds place (e.run operations) last s' := by
  induction actions generalizing e kin s operations with
  | nil =>
    obtain ⟨rfl, rfl⟩ := Prod.mk.inj (Option.some.inj haccount)
    exact ⟨s, rfl, hs⟩
  | cons action actions ih =>
    obtain ⟨kin', hkin, haccount⟩ := Option.bind_eq_some_iff.1 haccount
    obtain ⟨⟨last', rest⟩, hrest, heq⟩ := Option.bind_eq_some_iff.1 haccount
    obtain ⟨rfl, rfl⟩ := Prod.mk.inj (Option.some.inj heq)
    obtain ⟨s', hact, hs'⟩ := hs.act hkin
    obtain ⟨s'', hrun, hs''⟩ := ih hs' hrest
    refine ⟨s'', ?_, ?_⟩
    · rw [run?, List.foldlM_cons, hact]
      exact hrun
    · rwa [Engine.run_append]

end Holds

theorem holds_make (e : Engine) : Holds 0 e [true] (make {} e) where
  length := rfl
  inside := by
    intro h hmem
    rw [List.mem_singleton.1 hmem]
    exact Nat.one_pos
  engine := rfl
  here_iff := by
    intro handle h hhandle
    cases handle with
    | zero =>
      obtain rfl := Option.some.inj hhandle
      exact iff_of_true rfl rfl
    | succ n => cases hhandle

end Sharing

namespace Engine

/-- The state of an engine is told by its history, whether it is used alone or through the handles
of a shared engine. Through any of these it is found in the same state, which no other engine has a
part in. -/
theorem run_eq_history_through_handles (e : Engine) :
    (∀ operations, e.run operations = e.history operations) ∧
    (∀ c operations,
      ((ofConfig c).run operations).theme = latest? Operation.accepted? operations ∧
      ((ofConfig c).run operations).context =
        contextAfter (Context.merge {} c.context) operations ∧
      ((ofConfig c).run operations).fallback = c.fallback) ∧
    (∀ op, Operation.accepted? op = none → op.update? = none → (e.perform op).1 = e) ∧
    (∀ before load update after, load.update? = none → update.accepted? = none →
      e.run (before ++ load :: update :: after) = e.run (before ++ update :: load :: after)) ∧
    (∀ context, (e.perform (.update (Update.ofContext context))).1.context = context) ∧
    (∀ json d, Json.read? json = some d → e.perform (.loadText json) = e.perform (.loadDocument d)) ∧
    ∀ actions last operations, Sharing.account? [true] actions = some (last, operations) →
      ∃ s, (Sharing.make {} e).run? actions = some s ∧ s.handles.length = last.length ∧
        ∀ handle, last[handle]? = some true → s.engine? handle = some (e.run operations) ∧
          ∀ r, ∃ s', s.perform? handle r =
              some (s', ((e.run operations).perform r.operation).2) ∧
            ∀ other, last[other]? = some true →
              s'.engine? other = some ((e.run operations).perform r.operation).1 := by
  refine ⟨run_eq_history e, ?_, ?_, ?_, ?_, ?_, ?_⟩
  · intro c operations
    rw [run_eq_history]
    exact ⟨Option.or_none, rfl, rfl⟩
  · intro op htheme hupdate
    exact perform_fst_of_none htheme hupdate e
  · intro before load update after hload hupdate
    exact run_swap hload hupdate e before after
  · intro context
    rfl
  · intro json d hread
    simp only [perform, Theme.ofText, hread]
  · intro actions last operations haccount
    obtain ⟨s, hrun, hs⟩ := (Sharing.holds_make e).run haccount
    refine ⟨s, hrun, hs.length.symm, fun handle hkin => ⟨hs.engine? hkin, fun r => ?_⟩⟩
    obtain ⟨s', answer, hperform, hs', hanswer⟩ := hs.perform hkin r
    rw [if_pos rfl] at hs'
    exact ⟨s', hanswer rfl ▸ hperform, fun other hother => hs'.engine? hother⟩

def shellTheme : Text :=
  ("\x7b\"version\": \"2.1\", \"blocks\": [\x7b\"type\": \"prompt\", \"segments\": " ++
    "[\x7b\"type\": \"shell\"\x7d]\x7d]\x7d").toList

/-- Three handles of one engine and one of another: a theme through the last one, a rejected one and
updates through the others. -/
def threeHandles : List Sharing.Action :=
  [.clone 0, .perform 1 (.change (.update { code := some 1, shell := some "fish".toList })),
    .make {}, .clone 1, .perform 2 (.change (.update { shell := some "zsh".toList })),
    .perform 3 (.change (.loadText shellTheme)), .perform 0 (.change (.loadText "[]".toList)),
    .perform 3 (.look .info), .perform 1 (.change (.updateLeniently
      (.record [("Code".toList, .int 2), ("Shell".toList, .bool true)])))]

theorem run_eq_history_through_threeHandles :
    ∃ operations,
      Sharing.account? [true] threeHandles = some ([true, true, false, true], operations) ∧
      ∃ s shared,
        (Sharing.make {} (ofConfig { fallback := "> ".toList })).run? threeHandles = some s ∧
        s.engine? 0 = some shared ∧ s.engine? 3 = some shared ∧
        shared.context = { shell := "fish".toList, code := 2 } ∧
        shared.info? = some ⟨"2.1".toList, 1, 1, false⟩ ∧ shared.fallback = "> ".toList := by
  obtain ⟨-, -, -, -, -, -, hhandles⟩ :=
    run_eq_history_through_handles (ofConfig { fallback := "> ".toList })
  obtain ⟨s, hrun, -, hs⟩ := hhandles threeHandles _ _ rfl
  exact ⟨_, rfl, s, _, hrun, (hs 0 rfl).1, (hs 3 rfl).1, by decide +kernel, by decide +kernel,
    by decide +kernel⟩

end Engine
end ThemedPrompt
