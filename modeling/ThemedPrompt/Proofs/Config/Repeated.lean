import Mathlib.Data.List.Induction
import ThemedPrompt.Proofs.Config.FirstFound

/-! # Searches that are made again

A search remembers the file that its last configuration was read from. What it holds after any
number of loads, whatever happens to the files between them, can be told from those loads. The one
way in which it misleads is that a load which ends in the default configuration leaves the file of
an earlier load remembered.
-/
namespace ThemedPrompt
namespace Search
open Config

/-- A load: what is asked for, and the files as they are then. -/
structure Attempt where
  files : FileTree
  options : Options

def attempt (s : Search) (a : Attempt) : Search × Except Error Config := s.load a.files a.options

def run (s : Search) (attempts : List Attempt) : Search :=
  attempts.foldl (fun s a => (s.attempt a).1) s

/-- The file that is found holds a configuration that is not refused. -/
def Reads (s : Search) (a : Attempt) (path : Pathname) (c : Config) : Prop :=
  s.First a.files path c ∧ (a.options.check = false ∨ c.check = .ok ())

/-- The ways in which a load ends, and what it leaves behind. -/
inductive Ends (s : Search) (a : Attempt) : Search × Except Error Config → Prop
  | read {path : Pathname} {c : Config} (h : s.Reads a path c) :
      Ends s a ({ s with currentPath := some path }, .ok c)
  | refused {path : Pathname} {c : Config} {e : Error} (hfirst : s.First a.files path c)
      (hoption : a.options.check = true) (hcheck : c.check = .error e) : Ends s a (s, .error e)
  | byDefault (hvain : s.Vain a.files) (hoption : a.options.acceptDefault = true) :
      Ends s a (s, .ok {})
  | notFound (hvain : s.Vain a.files) (hoption : a.options.acceptDefault = false) :
      Ends s a (s, .error .configNotFound)

/-- The remembered path is right about a load: it is that of the file which the configuration was
read from, none for the default configuration, and as before if there is no configuration. -/
structure Right (s : Search) (a : Attempt) : Prop where
  read : ∀ path c, s.First a.files path c → (s.attempt a).2 = .ok c →
    (s.attempt a).1.currentPath = some path
  byDefault : ∀ c, s.Vain a.files → (s.attempt a).2 = .ok c → (s.attempt a).1.currentPath = none
  failed : ∀ e, (s.attempt a).2 = .error e → (s.attempt a).1.currentPath = s.currentPath

/-- The last file that was read, or else the one remembered at first. -/
def Remembers (s : Search) (attempts : List Attempt) (remembered : Option Pathname) : Prop :=
  (∃ before a after path c, attempts = before ++ a :: after ∧ s.Reads a path c ∧
    (∀ b ∈ after, ∀ path c, ¬ s.Reads b path c) ∧ remembered = some path) ∨
  ((∀ b ∈ attempts, ∀ path c, ¬ s.Reads b path c) ∧ remembered = s.currentPath)

section
variable {s : Search} {a : Attempt} {attempts : List Attempt} {path path' : Pathname}
  {c c' : Config}

theorem ends_attempt (s : Search) (a : Attempt) : s.Ends a (s.attempt a) := by
  rw [attempt]
  rcases first_or_vain s a.files with ⟨path, c, hfirst⟩ | hvain
  · cases hoption : a.options.check with
    | false =>
      rw [load_of_first hfirst (.inl hoption)]
      exact .read ⟨hfirst, .inl hoption⟩
    | true =>
      cases hcheck : c.check with
      | error e =>
        rw [load_of_first_refused hfirst hoption hcheck]
        exact .refused hfirst hoption hcheck
      | ok u =>
        rw [load_of_first hfirst (.inr hcheck)]
        exact .read ⟨hfirst, .inr hcheck⟩
  · rw [load_of_vain hvain]
    cases hoption : a.options.acceptDefault with
    | false => exact .notFound hvain hoption
    | true => exact .byDefault hvain hoption

theorem First.unique {files : FileTree} (h : s.First files path c) (h' : s.First files path' c') :
    path = path' ∧ c = c' := by
  have hfound := find?_of_first h
  rw [find?_of_first h'] at hfound
  obtain ⟨rfl, rfl⟩ := Prod.mk.inj (Option.some.inj hfound)
  exact ⟨rfl, rfl⟩

theorem not_first_of_vain {files : FileTree} (h : s.Vain files) : ¬ s.First files path c := by
  intro hfirst
  have hfound := find?_of_first hfirst
  rw [find?_of_vain h] at hfound
  cases hfound

theorem attempt_of_reads (h : s.Reads a path c) :
    s.attempt a = ({ s with currentPath := some path }, .ok c) :=
  load_of_first h.1 h.2

/-- A load that reads nothing remembers what was remembered before. -/
theorem attempt_fst_of_not_reads (h : ∀ path c, ¬ s.Reads a path c) : (s.attempt a).1 = s := by
  have hends := ends_attempt s a
  generalize s.attempt a = result at hends
  cases hends with
  | read hreads => exact absurd hreads (h _ _)
  | refused => rfl
  | byDefault => rfl
  | notFound => rfl

/-- No load changes where the next one looks. -/
theorem directories_attempt (s : Search) (a : Attempt) :
    (s.attempt a).1.directories = s.directories := by
  have hends := ends_attempt s a
  generalize s.attempt a = result at hends
  cases hends with
  | read => rfl
  | refused => rfl
  | byDefault => rfl
  | notFound => rfl

theorem run_append_singleton (s : Search) (attempts : List Attempt) (a : Attempt) :
    s.run (attempts ++ [a]) = ((s.run attempts).attempt a).1 := by
  rw [run, List.foldl_append]
  rfl

theorem directories_run (s : Search) (attempts : List Attempt) :
    (s.run attempts).directories = s.directories := by
  induction attempts using List.reverseRecOn with
  | nil => rfl
  | append_singleton attempts a ih => rw [run_append_singleton, directories_attempt, ih]

theorem first_run (s : Search) (attempts : List Attempt) (files : FileTree) :
    (s.run attempts).First files path c ↔ s.First files path c := by
  rw [First, First, directories_run]

theorem vain_run (s : Search) (attempts : List Attempt) (files : FileTree) :
    (s.run attempts).Vain files ↔ s.Vain files := by
  rw [Vain, Vain, directories_run]

theorem reads_run (s : Search) (attempts : List Attempt) (a : Attempt) :
    (s.run attempts).Reads a path c ↔ s.Reads a path c := by
  rw [Reads, Reads, first_run]

theorem remembers_run (s : Search) (attempts : List Attempt) :
    s.Remembers attempts (s.run attempts).currentPath := by
  induction attempts using List.reverseRecOn with
  | nil => exact .inr ⟨by simp, rfl⟩
  | append_singleton attempts a ih =>
    rw [run_append_singleton]
    by_cases hreads : ∃ path c, s.Reads a path c
    · obtain ⟨path, c, h⟩ := hreads
      rw [attempt_of_reads ((reads_run s attempts a).2 h)]
      exact .inl ⟨attempts, a, [], path, c, rfl, h, by simp, rfl⟩
    · have hnone : ∀ path c, ¬ s.Reads a path c := fun path c h => hreads ⟨path, c, h⟩
      have hlast : ∀ b ∈ [a], ∀ path c, ¬ s.Reads b path c := by
        intro b hb
        rw [List.mem_singleton.1 hb]
        exact hnone
      rw [attempt_fst_of_not_reads fun path c h => hnone path c ((reads_run s attempts a).1 h)]
      rcases ih with ⟨before, b, after, path, c, rfl, h, hafter, hpath⟩ | ⟨hbefore, hpath⟩
      · refine .inl ⟨before, b, after ++ [a], path, c, by simp, h, ?_, hpath⟩
        exact List.forall_mem_append.2 ⟨hafter, hlast⟩
      · exact .inr ⟨List.forall_mem_append.2 ⟨hbefore, hlast⟩, hpath⟩

/-- Something is remembered if it was at first, or has been read since. -/
theorem Remembers.isSome_iff {remembered : Option Pathname} (h : s.Remembers attempts remembered) :
    remembered ≠ none ↔ s.currentPath ≠ none ∨ ∃ b ∈ attempts, ∃ path c, s.Reads b path c := by
  rcases h with ⟨before, b, after, path, c, rfl, hreads, -, rfl⟩ | ⟨hnone, rfl⟩
  · have hmem : b ∈ before ++ b :: after := by simp
    exact ⟨fun _ => .inr ⟨b, hmem, path, c, hreads⟩, fun _ => by simp⟩
  · constructor
    · exact .inl
    · rintro (h | ⟨b, hb, path, c, hreads⟩)
      · exact h
      · exact absurd hreads (hnone b hb path c)

theorem right_iff (s : Search) (a : Attempt) :
    s.Right a ↔ ¬ (s.Vain a.files ∧ a.options.acceptDefault = true ∧ s.currentPath ≠ none) := by
  constructor
  · rintro hright ⟨hvain, hoption, hpath⟩
    have hload : s.attempt a = (s, .ok {}) := by rw [attempt, load_of_vain hvain, if_pos hoption]
    have hnone := hright.byDefault {} hvain (by rw [hload])
    rw [hload] at hnone
    exact hpath hnone
  · intro h
    have hends := ends_attempt s a
    constructor
    · intro path c hfirst hresult
      generalize s.attempt a = result at hends hresult
      cases hends with
      | read hreads => exact congrArg some (hreads.1.unique hfirst).1
      | refused => cases hresult
      | byDefault hvain => exact absurd hfirst (not_first_of_vain hvain)
      | notFound => cases hresult
    · intro c hvain hresult
      generalize s.attempt a = result at hends hresult
      cases hends with
      | read hreads => exact absurd hreads.1 (not_first_of_vain hvain)
      | refused => cases hresult
      | byDefault _ hoption => exact Decidable.of_not_not fun hpath => h ⟨hvain, hoption, hpath⟩
      | notFound => cases hresult
    · intro e hresult
      generalize s.attempt a = result at hends hresult
      cases hends with
      | read => cases hresult
      | refused => rfl
      | byDefault => cases hresult
      | notFound => rfl

end

/-- After any loads the file that was read last is remembered. The path is right about the next
load unless that one falls back on the default configuration while a file is remembered. -/
theorem run_right_iff (s : Search) (attempts : List Attempt) (a : Attempt) :
    s.Remembers attempts (s.run attempts).currentPath ∧
    (∀ path c, s.Reads a path c → (s.run attempts).attempt a =
      ({ s with currentPath := some path }, .ok c)) ∧
    ((∀ path c, ¬ s.Reads a path c) → ((s.run attempts).attempt a).1 = s.run attempts) ∧
    ((s.run attempts).Right a ↔ ¬ (s.Vain a.files ∧ a.options.acceptDefault = true ∧
      (s.currentPath ≠ none ∨ ∃ b ∈ attempts, ∃ path c, s.Reads b path c))) := by
  have hremembers := remembers_run s attempts
  refine ⟨hremembers, ?_, ?_, ?_⟩
  · intro path c h
    rw [attempt_of_reads ((reads_run s attempts a).2 h), ← directories_run s attempts]
  · intro h
    exact attempt_fst_of_not_reads fun path c hreads => h path c ((reads_run s attempts a).1 hreads)
  · rw [right_iff, vain_run, hremembers.isSome_iff]

def oneDirectory : Search := ⟨[.ofText "a".toList], none⟩

/-- The directory with a configuration in it, and the same directory after its file is gone. -/
def savedOnce : FileTree :=
  ⟨[], [((Pathname.ofText "a".toList).names, .directory),
    ((Pathname.ofText "a/config.json".toList).names, .file (Utf8.encode "\x7b\x7d".toList))]⟩

def goneAgain : FileTree := ⟨[], [((Pathname.ofText "a".toList).names, .directory)]⟩

theorem reads_savedOnce :
    oneDirectory.Reads ⟨savedOnce, {}⟩ (.ofText "a/config.json".toList) {} := by
  have hparse : ofText? .json "\x7b\x7d".toList = some {} := by decide +kernel
  refine ⟨⟨[], .ofText "a".toList, [], .json, rfl, by decide, ?_, ?_,
    _, _, rfl, Utf8.decode?_encode _, hparse⟩, .inr rfl⟩
  · intro d hd
    cases hd
  · intro _
    exact .absent (.inl rfl)

theorem vain_goneAgain : oneDirectory.Vain goneAgain := by
  intro d hd f
  obtain rfl := List.mem_singleton.1 hd
  cases f with
  | toml => exact .absent (.inl rfl)
  | json => exact .absent (.inl rfl)

/-- A file that was missed at first is read and remembered later. -/
theorem run_right_iff_savedOnce :
    oneDirectory.Reads ⟨savedOnce, {}⟩ (.ofText "a/config.json".toList) {} ∧
      (oneDirectory.run [⟨goneAgain, {}⟩]).attempt ⟨savedOnce, {}⟩ =
        ({ oneDirectory with currentPath := some (.ofText "a/config.json".toList) }, .ok {}) ∧
      (oneDirectory.run [⟨goneAgain, {}⟩]).Right ⟨savedOnce, {}⟩ := by
  obtain ⟨-, hread, -, hright⟩ := run_right_iff oneDirectory [⟨goneAgain, {}⟩] ⟨savedOnce, {}⟩
  refine ⟨reads_savedOnce, hread _ _ reads_savedOnce, hright.2 ?_⟩
  rintro ⟨hvain, -⟩
  exact not_first_of_vain hvain reads_savedOnce.1

/-- The second load ends in the default configuration, and the file that is gone is still
remembered. -/
theorem not_right_goneAgain :
    (oneDirectory.run [⟨savedOnce, {}⟩]).attempt ⟨goneAgain, {}⟩ =
        ({ oneDirectory with currentPath := some (.ofText "a/config.json".toList) }, .ok {}) ∧
      ¬ (oneDirectory.run [⟨savedOnce, {}⟩]).Right ⟨goneAgain, {}⟩ := by
  have hrun : oneDirectory.run [⟨savedOnce, {}⟩] =
      { oneDirectory with currentPath := some (.ofText "a/config.json".toList) } := by
    rw [← List.nil_append [_], run_append_singleton]
    exact congrArg Prod.fst (attempt_of_reads reads_savedOnce)
  have hgone : (oneDirectory.run [⟨savedOnce, {}⟩]).Vain goneAgain :=
    (vain_run _ _ _).2 vain_goneAgain
  constructor
  · rw [attempt, load_of_vain hgone, hrun]
    rfl
  · rw [right_iff]
    intro h
    exact h ⟨hgone, rfl, by rw [hrun]; exact Option.some_ne_none _⟩

end Search
end ThemedPrompt
