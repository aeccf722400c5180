import ThemedPrompt.Color.Paint
import ThemedPrompt.Proofs.Color.Hexadecimal
import ThemedPrompt.Proofs.Sgr.Isolation

/-! # Reading painted text

A scanner that has nothing set aside and stands in the plain style reads painted text as one run
in the look of its paint, and is plain again behind it. Text in the plain look is only put to the
literal text before it, so neighbours of that look become one run.
-/
namespace ThemedPrompt

/-- The colour that is read back from a painted one: its lower case, if it can be painted. -/
def seenColor (color : Option Text) : Option Text := (color.filter Rgb.isHashed).map Text.lower

theorem seenColor_some (color : Text) :
    seenColor (some color) = (Rgb.ofHashed? color).map Rgb.toHex := by
  rw [Rgb.ofHashed?_map_toHex, seenColor, Option.filter_some]
  cases Rgb.isHashed color <;> rfl

namespace Paint

/-- The style in which painted text is read back. -/
def look (p : Paint) : Style :=
  { foreground := seenColor p.foreground, background := seenColor p.background }

theorem opening_eq_nil_iff (layer : Layer) (color : Option Text) :
    color.elim [] (opening layer) = [] ↔ seenColor color = none := by
  cases color with
  | none => exact iff_of_true rfl rfl
  | some color =>
    rw [seenColor_some, Option.elim_some, opening]
    cases Rgb.ofHashed? color with
    | none => exact iff_of_true rfl rfl
    | some c => exact iff_of_false (List.cons_ne_nil _ _) (by simp)

theorem openings_eq_nil_iff (p : Paint) : p.openings = [] ↔ p.look = Style.plain := by
  rw [openings, List.append_eq_nil_iff, opening_eq_nil_iff, opening_eq_nil_iff]
  simp [look, Style.plain, and_comm]

end Paint

namespace Sgr
open Text

/-- Puts a run in front of others; it is joined to the first if both are plain. -/
def joinTo (r : Run) : List Run → List Run
  | [] => [r]
  | q :: rs =>
    if r.style = Style.plain ∧ q.style = Style.plain then ⟨r.content ++ q.content, Style.plain⟩ :: rs
    else r :: q :: rs

def joinPlain (rs : List Run) : List Run := rs.foldr joinTo []

@[simp] theorem joinPlain_cons (r : Run) (rs : List Run) :
    joinPlain (r :: rs) = joinTo r (joinPlain rs) := rfl

theorem joinTo_of_styled {r : Run} (hr : r.style ≠ Style.plain) (rs : List Run) :
    joinTo r rs = r :: rs := by
  cases rs with
  | nil => rfl
  | cons q rs => simp [joinTo, hr]

theorem joinTo_append (t u : Text) (rs : List Run) :
    joinTo ⟨t ++ u, Style.plain⟩ rs = joinTo ⟨t, Style.plain⟩ (joinTo ⟨u, Style.plain⟩ rs) := by
  cases rs with
  | nil => simp [joinTo]
  | cons q rs =>
    by_cases hq : q.style = Style.plain <;> simp [joinTo, hq]

theorem joinPlain_runOf_plain (t : Text) :
    joinPlain (runOf Style.plain t) = runOf Style.plain t := by
  by_cases h : t = [] <;> simp [runOf, h, joinPlain, joinTo]

theorem joinPlain_runOf_cons_plain (literal : Text) {t : Text} (ht : t ≠ []) (rs : List Run) :
    joinPlain (runOf Style.plain literal ++ ⟨t, Style.plain⟩ :: rs) =
      joinPlain (runOf Style.plain (literal ++ t) ++ rs) := by
  by_cases h : literal = []
  · simp [runOf, h, ht]
  · simp [runOf, h, joinTo_append]

theorem joinPlain_runOf_cons_styled (literal : Text) {r : Run} (hr : r.style ≠ Style.plain)
    (rs : List Run) : joinPlain (runOf Style.plain literal ++ r :: rs) =
      runOf Style.plain literal ++ r :: joinPlain rs := by
  have hjoin : joinPlain (r :: rs) = r :: joinPlain rs := joinTo_of_styled hr (joinPlain rs)
  by_cases h : literal = []
  · simpa [runOf, h] using hjoin
  · rw [runOf, if_neg h, List.singleton_append, joinPlain_cons, hjoin]
    simp [joinTo, hr]

namespace Scanner

structure Plain (s : Scanner) : Prop where
  pending : s.pending = .none
  style : s.style = Style.plain

/-- The scanner after text that is read as a run. -/
def add (s : Scanner) (r : Run) : Scanner :=
  if r.style = Style.plain then { s with literal := r.content.reverse ++ s.literal }
  else ⟨r :: s.flush s.literal, Style.plain, [], .none⟩

theorem Plain.add {s : Scanner} (hs : s.Plain) (r : Run) : (s.add r).Plain := by
  unfold Scanner.add
  split
  · exact ⟨hs.pending, hs.style⟩
  · exact ⟨rfl, rfl⟩

theorem Plain.foldl_add {s : Scanner} (hs : s.Plain) (rs : List Run) : (rs.foldl Scanner.add s).Plain := by
  induction rs generalizing s with
  | nil => exact hs
  | cons r rs ih => exact ih (hs.add r)

/-- What has been added is found again, neighbours in the plain style joined. -/
theorem finish_foldl_add {s : Scanner} (hs : s.Plain) {rs : List Run}
    (hne : ∀ r ∈ rs, r.content ≠ []) : (rs.foldl add s).finish =
      s.runs.reverse ++ joinPlain (runOf Style.plain s.literal.reverse ++ rs) := by
  induction rs generalizing s with
  | nil =>
    rw [List.foldl_nil, finish, reverse_flush, hs.pending, hs.style, List.append_nil,
      joinPlain_runOf_plain]
    rfl
  | cons r rs ih =>
    have hrest := ih (hs.add r) (fun q hq => hne q (List.mem_cons_of_mem r hq))
    rw [List.foldl_cons, hrest]
    -- A plain run only lengthens the literal text, a styled one ends it.
    by_cases hr : r.style = Style.plain
    · have hplain : r = ⟨r.content, Style.plain⟩ := by rw [← hr]
      rw [hplain, joinPlain_runOf_cons_plain _ (hne r List.mem_cons_self)]
      simp [add]
    · have hflush := reverse_flush s s.literal
      rw [joinPlain_runOf_cons_styled _ hr]
      simp [add, hr, hflush, hs.style, runOf]

theorem foldl_of_notMem_esc {s : Scanner} (hs : s.pending = .none) {t : Text} (ht : esc ∉ t) :
    t.foldl step s = { s with literal := t.reverse ++ s.literal } := by
  induction t generalizing s with
  | nil => rfl
  | cons c cs ih =>
    have hc : c ≠ esc := (List.ne_of_not_mem_cons ht).symm
    have hstep : s.step c = { s with literal := c :: s.literal } := by
      rw [step, hs]
      simp [text, hc]
    have hrest := ih (s := { s with literal := c :: s.literal }) hs (List.not_mem_of_not_mem_cons ht)
    rw [List.foldl_cons, hstep, hrest]
    simp

theorem apply_trueColor (s : Style) (layer : Layer) (c : Rgb) :
    s.apply ([layer.selector, 2, c.red.toNat, c.green.toNat, c.blue.toNat].map (min · codeLimit)) =
      Command.run s (.color layer (some c.toHex)) := by
  have hcode (x : UInt8) : min x.toNat codeLimit = x.toNat := by
    have := x.toNat_lt
    rw [codeLimit]
    omega
  have hchannel (x : UInt8) : UInt8.ofNat (min x.toNat 255) = x := by
    have := x.toNat_lt
    rw [Nat.min_eq_left (by omega), UInt8.ofNat_toNat]
  have hselector : min layer.selector codeLimit = layer.selector := by
    cases layer <;> rfl
  have hmap : [layer.selector, 2, c.red.toNat, c.green.toNat, c.blue.toNat].map (min · codeLimit) =
      [layer.selector, 2, c.red.toNat, c.green.toNat, c.blue.toNat] := by
    simp only [List.map_cons, List.map_nil, hcode, hselector]
    rfl
  have hcommand : Command.ofCodes [layer.selector, 2, c.red.toNat, c.green.toNat, c.blue.toNat] =
      [Command.color layer (some c.toHex)] := by
    cases layer <;>
      simp only [Layer.selector, Command.ofCodes, Command.trueColor, hchannel]
  rw [hmap, Style.apply, hcommand]
  rfl

theorem foldl_opening {s : Scanner} (hs : s.pending = .none) (layer : Layer) (color : Option Text) :
    (color.elim [] (Paint.opening layer)).foldl step s = match seenColor color with
      | some seen =>
        ⟨s.flush s.literal, Command.run s.style (.color layer (some seen)), [], .none⟩
      | none => s := by
  cases color with
  | none => rfl
  | some color =>
    rw [seenColor_some, Option.elim_some, Paint.opening]
    cases Rgb.ofHashed? color with
    | none => rfl
    | some c =>
      have hcodes : [layer.selector, 2, c.red.toNat, c.green.toNat, c.blue.toNat] ≠ [] :=
        List.cons_ne_nil _ _
      have happly := apply_trueColor s.style layer c
      dsimp only [Option.map_some]
      rw [foldl_sequence s (isSequence_write hcodes), codesOf_write hcodes]
      simpa [settle, hs, Pending.raw, complete, flush] using happly

theorem foldl_openings {s : Scanner} (hs : s.Plain) (p : Paint) : p.openings.foldl step s =
    if p.look = Style.plain then s else ⟨s.flush s.literal, p.look, [], .none⟩ := by
  rw [Paint.openings, List.foldl_append, foldl_opening hs.pending]
  cases hb : seenColor p.background with
  | none =>
    dsimp only
    rw [foldl_opening hs.pending]
    cases hf : seenColor p.foreground with
    | none => simp [Paint.look, hb, hf, Style.plain]
    | some f => simp [Paint.look, hb, hf, Style.plain, hs.style, Command.run]
  | some b =>
    dsimp only
    rw [foldl_opening rfl]
    cases hf : seenColor p.foreground with
    | none => simp [Paint.look, hb, hf, Style.plain, hs.style, Command.run]
    | some f => simp [Paint.look, hb, hf, Style.plain, hs.style, Command.run, flush]

/-- Painted text is read as one run in the look of its paint. -/
theorem foldl_apply {s : Scanner} (hs : s.Plain) (p : Paint) {t : Text} (ht : esc ∉ t) :
    (p.apply t).foldl step s = (runOf p.look t).foldl add s := by
  unfold Paint.apply runOf
  by_cases hne : t = []
  · rw [if_pos hne, if_pos hne]
    rfl
  · have hopenings := foldl_openings hs p
    rw [if_neg hne, if_neg hne]
    by_cases hlook : p.look = Style.plain
    · rw [if_pos ((Paint.openings_eq_nil_iff p).2 hlook), foldl_of_notMem_esc hs.pending ht]
      simp [add, hlook]
    · rw [if_neg hlook] at hopenings
      rw [if_neg (fun h => hlook ((Paint.openings_eq_nil_iff p).1 h)), List.foldl_append,
        List.foldl_append, hopenings, foldl_of_notMem_esc rfl ht,
        foldl_sequence _ isSequence_reset, complete, apply_reset]
      simp [settle, Pending.raw, flush, add, hlook, hne]

/-- Whether a text is read as given runs wherever nothing is set aside and the style is plain. -/
def ReadAs (t : Text) (rs : List Run) : Prop :=
  ∀ s : Scanner, s.Plain → t.foldl step s = rs.foldl add s

theorem ReadAs.append {t u : Text} {rs qs : List Run} (ht : ReadAs t rs) (hu : ReadAs u qs) :
    ReadAs (t ++ u) (rs ++ qs) := by
  intro s hs
  rw [List.foldl_append, List.foldl_append, ht s hs, hu _ (hs.foldl_add rs)]

theorem ReadAs.flatMap {α : Type} {xs : List α} {f : α → Text} {g : α → List Run}
    (h : ∀ x ∈ xs, ReadAs (f x) (g x)) : ReadAs (xs.flatMap f) (xs.flatMap g) := by
  induction xs with
  | nil => exact fun _ _ => rfl
  | cons x xs ih =>
    rw [List.flatMap_cons, List.flatMap_cons]
    exact (h x List.mem_cons_self).append (ih (fun y hy => h y (List.mem_cons_of_mem x hy)))

end Scanner

/-- A text that is read as runs decodes to them, and leaves the plain style behind. -/
theorem decode_of_readAs {t : Text} {rs : List Run} (h : Scanner.ReadAs t rs)
    (hne : ∀ r ∈ rs, r.content ≠ []) :
    decode t = joinPlain rs ∧ (t.foldl Scanner.step {}).Plain := by
  have hstart : Scanner.Plain {} := ⟨rfl, rfl⟩
  have hread := h {} hstart
  refine ⟨?_, hread ▸ hstart.foldl_add rs⟩
  rw [decode, hread, Scanner.finish_foldl_add hstart hne]
  rfl

end Sgr
end ThemedPrompt
