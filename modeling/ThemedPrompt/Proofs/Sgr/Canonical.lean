import ThemedPrompt.Proofs.Sgr.Decode

/-! # Canonical colours

However a colour comes into a style, by name, from the table or channel by channel, it is written as
`#` and six lower-case digits. So are the colours of all runs of a text.
-/
namespace ThemedPrompt

/-- A text is what some colour is written with. -/
def Rgb.Writes (t : Text) : Prop := ∃ c : Rgb, c.toHex = t

structure Style.Canonical (s : Style) : Prop where
  foreground : ∀ c ∈ s.foreground, Rgb.Writes c
  background : ∀ c ∈ s.background, Rgb.Writes c

namespace Sgr

/-- The colours that a command sets are canonical. -/
def Command.Canonical : Command → Prop
  | .color _ value => ∀ c ∈ value, Rgb.Writes c
  | _ => True

variable {s : Style}

theorem Command.canonical_map (layer : Layer) (color : Option Rgb) :
    (Command.color layer (color.map Rgb.toHex)).Canonical := by
  intro c hc
  obtain ⟨rgb, -, hrgb⟩ := Option.map_eq_some_iff.1 hc
  exact ⟨rgb, hrgb⟩

theorem Command.canonical_of_ofCode? {code : Nat} {command : Command}
    (h : ofCode? code = some command) : command.Canonical := by
  unfold ofCode? at h
  split at h
  case h_8 | h_9 =>
    cases h
    rintro c ⟨⟩
  case h_10 =>
    split at h
    · cases h
      exact canonical_map _ _
    · split at h
      · cases h
        exact canonical_map _ _
      · cases h
  all_goals
    cases h
    trivial

theorem Command.canonical_trueColor (layer : Layer) (r g b : Nat) :
    (trueColor layer r g b).Canonical := by
  rintro c ⟨⟩
  exact ⟨_, rfl⟩

theorem Command.canonical_of_mem_ofCodes {codes : List Nat} :
    ∀ command ∈ ofCodes codes, command.Canonical := by
  fun_induction ofCodes codes with
  | case1 => simp
  | case2 n rest ih => exact List.forall_mem_cons.2 ⟨canonical_map _ _, ih⟩
  | case3 r g b rest ih => exact List.forall_mem_cons.2 ⟨canonical_trueColor _ r g b, ih⟩
  | case4 n rest ih => exact List.forall_mem_cons.2 ⟨canonical_map _ _, ih⟩
  | case5 r g b rest ih => exact List.forall_mem_cons.2 ⟨canonical_trueColor _ r g b, ih⟩
  | case6 code rest _ _ _ _ ih =>
    refine List.forall_mem_append.2 ⟨?_, ih⟩
    intro command hcommand
    exact canonical_of_ofCode? (Option.mem_toList.1 hcommand)

theorem canonical_plain : Style.plain.Canonical := ⟨by rintro c ⟨⟩, by rintro c ⟨⟩⟩

theorem Command.Canonical.run {command : Command} (hcommand : command.Canonical)
    (hs : s.Canonical) : (Command.run s command).Canonical := by
  cases command with
  | reset => exact canonical_plain
  | bold on => exact ⟨hs.foreground, hs.background⟩
  | italic on => exact ⟨hs.foreground, hs.background⟩
  | underline on => exact ⟨hs.foreground, hs.background⟩
  | color layer value =>
    cases layer with
    | foreground => exact ⟨hcommand, hs.background⟩
    | background => exact ⟨hs.foreground, hcommand⟩

/-- Whatever the codes are, they keep the colours of a style canonical. -/
theorem canonical_apply (hs : s.Canonical) (codes : List Nat) : (s.apply codes).Canonical := by
  have hfold (commands : List Command) : ∀ s : Style, s.Canonical →
      (∀ command ∈ commands, command.Canonical) → (commands.foldl Command.run s).Canonical := by
    induction commands with
    | nil => exact fun s hs _ => hs
    | cons command commands ih =>
      intro s hs hcommands
      obtain ⟨hcommand, hrest⟩ := List.forall_mem_cons.1 hcommands
      exact ih _ (hcommand.run hs) hrest
  exact hfold _ s hs Command.canonical_of_mem_ofCodes

theorem canonical_of_mem_runOf (hs : s.Canonical) {t : Text} {r : Run} (hr : r ∈ runOf s t) :
    r.style.Canonical := by
  unfold runOf at hr
  split at hr
  · cases hr
  · rw [List.mem_singleton.1 hr]
    exact hs

theorem canonical_of_mem_runsFrom (hs : s.Canonical) {literal : Text} {ps : List Piece} {r : Run}
    (hr : r ∈ runsFrom s literal ps) : r.style.Canonical := by
  induction ps generalizing s literal with
  | nil => exact canonical_of_mem_runOf hs hr
  | cons p ps ih =>
    cases p with
    | literal c => exact ih hs hr
    | codes codes =>
      rcases List.mem_append.1 hr with hr | hr
      · exact canonical_of_mem_runOf hs hr
      · exact ih (canonical_apply hs codes) hr

theorem canonical_of_mem_decode {t : Text} {r : Run} (hr : r ∈ decode t) : r.style.Canonical := by
  rw [decode_eq_runsFrom] at hr
  exact canonical_of_mem_runsFrom canonical_plain hr

end Sgr
end ThemedPrompt
