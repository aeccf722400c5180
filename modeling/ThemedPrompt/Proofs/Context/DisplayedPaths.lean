import Mathlib.Data.List.DropRight
import ThemedPrompt.Context
import ThemedPrompt.Proofs.Text.Cutting

/-! # Displayed paths

A directory in the home directory is shown with `~` in its place, and any other as it is. What is
shown can be expanded again, but for one slash behind the home directory itself. So two directories
from the root are never shown alike, unless both are home.
-/
namespace ThemedPrompt

/-- How a directory is shown, given the home directory. -/
inductive Displayed (home : Text) : Text → Text → Prop
  | atHome (h : home ≠ []) : Displayed home home ['~']
  | atSlash (h : home ≠ []) : Displayed home (home ++ ['/']) ['~']
  | below (h : home ≠ []) (c : Char) (rest : Text) :
      Displayed home (home ++ '/' :: c :: rest) ('~' :: '/' :: c :: rest)
  | elsewhere {directory : Text}
      (h : home ≠ [] → directory ≠ home ∧ ¬ home ++ ['/'] <+: directory) :
      Displayed home directory directory

namespace Context

/-- Puts the home directory in the place of `~` at the front. -/
def expand (home : Text) : Text → Text
  | '~' :: rest => home ++ rest
  | t => t

/-- The working directory is home, with or without a slash behind it. -/
def AtHome (c : Context) : Prop :=
  c.homeStem ≠ [] ∧ (c.workingDirectory = c.homeStem ∨ c.workingDirectory = c.homeStem ++ ['/'])

instance (c : Context) : Decidable c.AtHome := inferInstanceAs (Decidable (_ ∧ _))

end Context

namespace Displayed
open Context
variable {home directory shown : Text}

theorem of_after?_eq_none (h : Text.after? home directory = none) :
    Displayed home directory directory := by
  refine .elsewhere fun _ => ⟨?_, ?_⟩
  · rintro rfl
    have hself := Text.after?_append directory []
    rw [List.append_nil, h] at hself
    cases hself
  · rintro ⟨rest, rfl⟩
    rw [List.append_assoc, Text.after?_append] at h
    cases h

/-- A directory whose name only begins with that of home is not in it. -/
theorem beside {a : Char} (ha : a ≠ '/') (home rest : Text) :
    Displayed home (home ++ a :: rest) (home ++ a :: rest) := by
  refine .elsewhere fun _ => ⟨by simp, ?_⟩
  rintro ⟨more, heq⟩
  rw [List.append_assoc, List.append_cancel_left_eq] at heq
  exact ha (List.cons.inj heq).1.symm

/-- Expanding is the inverse of showing. -/
theorem expand_eq (h : Displayed home directory shown) (habsolute : directory.head? = some '/') :
    expand home shown = if home ≠ [] ∧ directory = home ++ ['/'] then home else directory := by
  cases h with
  | atHome h =>
    rw [expand, List.append_nil, if_neg]
    rintro ⟨-, heq⟩
    exact absurd heq (by simp)
  | atSlash h => rw [expand, List.append_nil, if_pos ⟨h, rfl⟩]
  | below h c rest =>
    rw [expand, if_neg]
    rintro ⟨-, heq⟩
    exact absurd heq (by simp)
  | elsewhere h =>
    rw [if_neg]
    · obtain ⟨rest, rfl⟩ := List.head?_eq_some_iff.1 habsolute
      rfl
    · rintro ⟨hhome, rfl⟩
      exact (h hhome).2 (List.prefix_refl _)

theorem head_iff (h : Displayed home directory shown) (habsolute : directory.head? = some '/') :
    shown.head? = some '~' ↔ home ≠ [] ∧ (directory = home ∨ home ++ ['/'] <+: directory) := by
  cases h with
  | atHome h => exact ⟨fun _ => ⟨h, .inl rfl⟩, fun _ => rfl⟩
  | atSlash h => exact ⟨fun _ => ⟨h, .inr (List.prefix_refl _)⟩, fun _ => rfl⟩
  | below h c rest => exact ⟨fun _ => ⟨h, .inr ⟨c :: rest, by simp⟩⟩, fun _ => rfl⟩
  | elsewhere h =>
    constructor
    · intro htilde
      rw [habsolute] at htilde
      cases htilde
    · rintro ⟨hhome, heq | hprefix⟩
      · exact absurd heq (h hhome).1
      · exact absurd hprefix (h hhome).2

theorem eq_self (h : Displayed home directory shown) (hne : directory ≠ home)
    (hnot : ¬ home ++ ['/'] <+: directory) : shown = directory := by
  cases h with
  | atHome => exact absurd rfl hne
  | atSlash => exact absurd (List.prefix_refl _) hnot
  | below h c rest => exact absurd ⟨c :: rest, by simp⟩ hnot
  | elsewhere => rfl

end Displayed

namespace Context
variable {c d : Context}

/-- Home is its stem with slashes behind it, and the stem ends in none. -/
theorem exists_home_eq (c : Context) :
    ∃ n, c.home = c.homeStem ++ List.replicate n '/' ∧ c.homeStem.getLast? ≠ some '/' := by
  refine ⟨(c.home.rtakeWhile (· = '/')).length, ?_, ?_⟩
  · have hslashes : c.home.rtakeWhile (· = '/') =
        List.replicate (c.home.rtakeWhile (· = '/')).length '/' := by
      refine List.eq_replicate_iff.2 ⟨rfl, ?_⟩
      intro a ha
      have hslash := List.mem_rtakeWhile_imp ha
      exact of_decide_eq_true hslash
    rw [← hslashes]
    exact (List.rdropWhile_append_rtakeWhile (p := (· = '/')) (l := c.home)).symm
  · intro hlast
    obtain ⟨front, hfront⟩ := List.getLast?_eq_some_iff.1 hlast
    have hne : c.homeStem ≠ [] := by rw [hfront]; exact List.concat_ne_nil _ _
    have hnot := List.rdropWhile_last_not (· = '/') c.home hne
    exact hnot (decide_eq_true (List.getLast_of_getLast?_eq_some hlast))

theorem displayed_displayPath (c : Context) :
    Displayed c.homeStem c.workingDirectory c.displayPath := by
  rw [displayPath]
  by_cases hhome : c.homeStem = []
  · rw [if_pos hhome]
    exact .elsewhere fun h => absurd hhome h
  · rw [if_neg hhome]
    cases hafter : Text.after? c.homeStem c.workingDirectory with
    | none => exact .of_after?_eq_none hafter
    | some rest =>
      rw [Text.append_of_after? hafter]
      cases rest with
      | nil =>
        rw [List.append_nil]
        exact .atHome hhome
      | cons a rest =>
        by_cases ha : a = '/'
        · subst ha
          cases rest with
          | nil => exact .atSlash hhome
          | cons b rest => exact .below hhome b rest
        · split
          · next heq => cases heq
          · next heq => exact absurd (List.cons.inj (Option.some.inj heq)).1 ha
          · next heq => exact absurd (List.cons.inj (Option.some.inj heq)).1 ha
          · exact .beside ha c.homeStem rest

/-- Only the home directory and the working directory count. -/
theorem displayPath_congr (hhome : c.home = d.home)
    (hdirectory : c.workingDirectory = d.workingDirectory) : c.displayPath = d.displayPath := by
  rw [displayPath, displayPath, homeStem, homeStem, hhome, hdirectory]

theorem displayPath_of_atHome (h : c.AtHome) : c.displayPath = ['~'] := by
  obtain ⟨hhome, hdirectory⟩ := h
  rw [displayPath, if_neg hhome]
  rcases hdirectory with hdirectory | hdirectory
  · have hafter := Text.after?_append c.homeStem []
    rw [List.append_nil] at hafter
    rw [hdirectory, hafter]
  · rw [hdirectory, Text.after?_append]
    rfl

/-- Directories that are shown alike can be told apart by at most a slash behind home. -/
theorem eq_or_atHome_of_displayPath_eq (hhome : c.home = d.home)
    (hc : c.workingDirectory.head? = some '/') (hd : d.workingDirectory.head? = some '/')
    (heq : c.displayPath = d.displayPath) :
    c.workingDirectory = d.workingDirectory ∨ c.AtHome ∧ d.AtHome := by
  have hstem : d.homeStem = c.homeStem := by rw [homeStem, homeStem, hhome]
  have hexpand := (displayed_displayPath c).expand_eq hc
  have hother := (displayed_displayPath d).expand_eq hd
  rw [hstem, ← heq, hexpand] at hother
  rw [AtHome, AtHome, hstem]
  split at hother
  · next hslash =>
    refine .inr ⟨⟨hslash.1, .inr hslash.2⟩, hslash.1, ?_⟩
    split at hother
    · next hslash' => exact .inr hslash'.2
    · exact .inl hother.symm
  · split at hother
    · next hslash => exact .inr ⟨⟨hslash.1, .inl hother⟩, hslash.1, .inr hslash.2⟩
    · exact .inl hother

/-- A displayed path tells the directory, up to a slash behind the home directory. -/
theorem displayPath_eq_iff (c d : Context) (hhome : c.home = d.home)
    (hc : c.workingDirectory.head? = some '/') (hd : d.workingDirectory.head? = some '/') :
    (∃ n, c.home = c.homeStem ++ List.replicate n '/' ∧ c.homeStem.getLast? ≠ some '/') ∧
    (c.displayPath = d.displayPath ↔
      c.workingDirectory = d.workingDirectory ∨ c.AtHome ∧ d.AtHome) ∧
    (c.displayPath.head? = some '~' ↔ c.homeStem ≠ [] ∧
      (c.workingDirectory = c.homeStem ∨ c.homeStem ++ ['/'] <+: c.workingDirectory)) ∧
    (∀ name, name ≠ [] → name.head? ≠ some '/' → c.workingDirectory = c.homeStem ++ name →
      c.displayPath = c.workingDirectory) ∧
    ∀ rest, c.displayPath = '~' :: rest → c.homeStem ++ rest = c.workingDirectory ∨
      rest = [] ∧ c.workingDirectory = c.homeStem ++ ['/'] := by
  have hshown := displayed_displayPath c
  refine ⟨exists_home_eq c, ⟨eq_or_atHome_of_displayPath_eq hhome hc hd, ?_⟩, hshown.head_iff hc,
    ?_, ?_⟩
  · rintro (hdirectory | ⟨hc, hd⟩)
    · exact displayPath_congr hhome hdirectory
    · rw [displayPath_of_atHome hc, displayPath_of_atHome hd]
  · intro name hne hhead hdirectory
    refine hshown.eq_self ?_ ?_
    · rw [hdirectory]
      exact fun heq => hne (List.append_right_eq_self.1 heq)
    · rw [hdirectory, List.prefix_append_right_inj]
      rintro ⟨rest, rfl⟩
      exact hhead rfl
  · intro rest hrest
    have hexpand := hshown.expand_eq hc
    rw [hrest, expand] at hexpand
    split at hexpand
    · next hslash => exact .inr ⟨List.append_right_eq_self.1 hexpand, hslash.2⟩
    · exact .inl hexpand

/-- Both ways of writing home are shown alike, though home is written with slashes behind it. -/
theorem displayPath_eq_iff_homeAndSlash :
    displayPath { home := "/home/user//".toList, workingDirectory := "/home/user".toList } =
        displayPath { home := "/home/user//".toList, workingDirectory := "/home/user/".toList } ∧
      displayPath { home := "/home/user//".toList, workingDirectory := "/home/user".toList } ≠
        displayPath { home := "/home/user//".toList, workingDirectory := "/home/user2".toList } := by
  let c : Context := { home := "/home/user//".toList, workingDirectory := "/home/user".toList }
  let slash : Context := { c with workingDirectory := "/home/user/".toList }
  let beside : Context := { c with workingDirectory := "/home/user2".toList }
  constructor
  · exact (displayPath_eq_iff c slash rfl rfl rfl).2.1.2 (.inr (by decide))
  · intro heq
    have h := (displayPath_eq_iff c beside rfl rfl rfl).2.1.1 heq
    exact absurd h (by decide)

end Context
end ThemedPrompt
