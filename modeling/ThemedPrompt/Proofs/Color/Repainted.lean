import ThemedPrompt.Proofs.Color.HexadecimalForms
import ThemedPrompt.Proofs.Color.PaintedOver
import ThemedPrompt.Proofs.Sgr.Canonical

/-! # Painting with decoded colours

The colours of a decoded text are fit to be painted with: each is `#` and six lower-case digits, is
read as a colour that is written so again, and is seen unchanged where a text is painted with it.
-/
namespace ThemedPrompt

namespace Text

def isLowerHexDigit (c : Char) : Bool := ('0' ≤ c && c ≤ '9') || ('a' ≤ c && c ≤ 'f')

/-- Whether a text is `#` and six lower-case hexadecimal digits. -/
def IsHexForm (t : Text) : Prop :=
  ∃ digits, t = '#' :: digits ∧ digits.length = 6 ∧ ∀ c ∈ digits, isLowerHexDigit c = true

theorem toNat_lt_of_isLowerHexDigit {c : Char} (hc : isLowerHexDigit c = true) : c.toNat < 128 := by
  simp only [isLowerHexDigit, Bool.or_eq_true, Bool.and_eq_true, decide_eq_true_eq] at hc
  rcases hc with ⟨_, h⟩ | ⟨_, h⟩
  · exact Nat.lt_of_le_of_lt h (by decide)
  · exact Nat.lt_of_le_of_lt h (by decide)

theorem isLowerHexDigit_iff (c : Char) :
    isLowerHexDigit c = true ↔ isHexDigit c = true ∧ c.toLower = c := by
  constructor
  · intro hc
    exact of_ascii (P := fun c => isLowerHexDigit c = true → isHexDigit c = true ∧ c.toLower = c)
      (by decide) (toNat_lt_of_isLowerHexDigit hc) hc
  · intro hc
    exact of_ascii (P := fun c => isHexDigit c = true ∧ c.toLower = c → isLowerHexDigit c = true)
      (by decide) (toNat_lt_of_isHexDigit hc.1) hc

theorem isLowerHexDigit_of_mem_hexByte {b : UInt8} {c : Char} (hc : c ∈ hexByte b) :
    isLowerHexDigit c = true := by
  have hlower : ∀ n < 16, isLowerHexDigit (hexDigit n) = true := by decide
  have hb := b.toNat_lt
  rw [hexByte, List.mem_cons, List.mem_singleton] at hc
  rcases hc with rfl | rfl
  · exact hlower _ (by omega)
  · exact hlower _ (by omega)

end Text
open Text

namespace Rgb

/-- What colours are written with is all that has this form. -/
theorem writes_iff_isHexForm {t : Text} : Writes t ↔ IsHexForm t := by
  constructor
  · rintro ⟨c, rfl⟩
    refine ⟨c.digits, rfl, rfl, fun d hd => ?_⟩
    rw [digits, List.mem_append, List.mem_append] at hd
    rcases hd with (hd | hd) | hd <;> exact isLowerHexDigit_of_mem_hexByte hd
  · rintro ⟨digits, rfl, hlength, hdigits⟩
    have hsix : IsSixDigits digits :=
      ⟨hlength, fun c hc => ((isLowerHexDigit_iff c).1 (hdigits c hc)).1⟩
    have hlower : lower digits = digits :=
      (List.map_congr_left fun c hc => ((isLowerHexDigit_iff c).1 (hdigits c hc)).2).trans
        (List.map_id' digits)
    obtain ⟨c, -, hc⟩ := exists_of_isSixDigits hsix
    exact ⟨c, congrArg ('#' :: ·) (hc.trans hlower)⟩

theorem ofHashed?_toHex (c : Rgb) : ofHashed? c.toHex = some c := ofDigits?_digits c

theorem ofHex?_toHex (c : Rgb) : ofHex? c.toHex = some c := ofDigits?_digits c

end Rgb

theorem seenColor_of_writes {color : Text} (h : Rgb.Writes color) :
    seenColor (some color) = some color := by
  obtain ⟨c, rfl⟩ := h
  rw [seenColor_some, Rgb.ofHashed?_toHex]
  rfl

namespace Style

def color (s : Style) : Layer → Option Text
  | .foreground => s.foreground
  | .background => s.background

/-- The plain style but for one colour. -/
def colored (layer : Layer) (value : Text) : Style :=
  match layer with
  | .foreground => { foreground := some value }
  | .background => { background := some value }

theorem canonical_iff {s : Style} :
    s.Canonical ↔ ∀ layer, ∀ c ∈ s.color layer, IsHexForm c := by
  constructor
  · rintro ⟨hforeground, hbackground⟩ layer c hc
    cases layer with
    | foreground => exact Rgb.writes_iff_isHexForm.1 (hforeground c hc)
    | background => exact Rgb.writes_iff_isHexForm.1 (hbackground c hc)
  · intro h
    constructor
    · exact fun c hc => Rgb.writes_iff_isHexForm.2 (h .foreground c hc)
    · exact fun c hc => Rgb.writes_iff_isHexForm.2 (h .background c hc)

end Style

namespace Paint

/-- The paint of one colour. -/
def on (layer : Layer) (value : Text) : Paint :=
  match layer with
  | .foreground => { foreground := some value }
  | .background => { background := some value }

theorem openings_on (layer : Layer) (value : Text) :
    (on layer value).openings = opening layer value := by
  cases layer with
  | foreground => rfl
  | background => exact List.append_nil _

theorem look_on {value : Text} (h : Rgb.Writes value) (layer : Layer) :
    (on layer value).look = Style.colored layer value := by
  have hseen := seenColor_of_writes h
  cases layer with
  | foreground | background =>
    rw [look, on, hseen]
    rfl

end Paint

namespace Sgr

theorem hasSequence_of_notMem_esc {t : Text} (ht : esc ∉ t) : hasSequence t = false := by
  rw [Bool.eq_false_iff]
  intro h
  obtain ⟨before, found, after, rfl, hfound⟩ := hasSequence_iff.1 h
  obtain ⟨numbers, -, -, rfl⟩ := isSequence_iff.1 hfound
  exact ht (by simp [written])

/-- A text behind the sequence of one colour. -/
theorem decode_opening_append {color : Text} (hcolor : Rgb.Writes color) (layer : Layer) {t : Text}
    (hne : t ≠ []) (ht : esc ∉ t) :
    decode (Paint.opening layer color ++ t) = [⟨t, Style.colored layer color⟩] := by
  have hplain := hasSequence_of_notMem_esc ht
  rw [← Paint.openings_on, decode_openings_append, Paint.look_on hcolor,
    decodeFrom_of_hasSequence_eq_false _ hplain, runOf, if_neg hne]

/-- No codes whatever give a style another kind of colour than `#` and six lower-case digits. So the
colours of a decoded text are read and written back, and a text painted with one is seen in it. -/
theorem isHexForm_apply_and_repainted :
    (∀ layer, ∀ c ∈ Style.plain.color layer, IsHexForm c) ∧
    (∀ (s : Style) (codes : List Nat), (∀ layer, ∀ c ∈ s.color layer, IsHexForm c) →
      ∀ layer, ∀ c ∈ (s.apply codes).color layer, IsHexForm c) ∧
    ∀ t, ∀ r ∈ decode t, ∀ layer, ∀ c ∈ r.style.color layer,
      IsHexForm c ∧ (∃ rgb, Rgb.ofHex? c = some rgb ∧ rgb.toHex = c) ∧
      ∀ other text, text ≠ [] → esc ∉ text →
        decode (Paint.opening other c ++ text) = [⟨text, Style.colored other c⟩] := by
  refine ⟨Style.canonical_iff.1 canonical_plain, fun s codes hs => ?_, fun t r hr layer c hc => ?_⟩
  · exact Style.canonical_iff.1 (canonical_apply (Style.canonical_iff.2 hs) codes)
  · have hform := Style.canonical_iff.1 (canonical_of_mem_decode hr) layer c hc
    have hwrites := Rgb.writes_iff_isHexForm.2 hform
    refine ⟨hform, ?_, fun other text hne htext => decode_opening_append hwrites other hne htext⟩
    obtain ⟨rgb, rfl⟩ := hwrites
    exact ⟨rgb, rgb.ofHex?_toHex, rfl⟩

/-- An index of the table and a channel beyond 255 give colours of the same kind. -/
theorem isHexForm_apply_and_repainted_orange :
    let orange := "#ff8700".toList
    let r : Run := ⟨['x'], { foreground := some orange, background := some "#ff0700".toList }⟩
    r ∈ decode "\x1b[38;5;208;48;2;300;7;0mx".toList ∧
      (∀ layer, ∀ c ∈ (r.style.apply [97, 48, 5, 256]).color layer, IsHexForm c) ∧
      decode (Paint.opening .background orange ++ ['y']) =
        [⟨['y'], Style.colored .background orange⟩] := by
  intro orange r
  obtain ⟨-, happly, hdecode⟩ := isHexForm_apply_and_repainted
  have hr : r ∈ decode "\x1b[38;5;208;48;2;300;7;0mx".toList := by decide +kernel
  have hrun := hdecode _ r hr
  refine ⟨hr, happly r.style _ fun layer c hc => (hrun layer c hc).1, ?_⟩
  obtain ⟨-, -, hpainted⟩ := hrun .foreground orange rfl
  exact hpainted .background ['y'] (by decide) (by decide)

end Sgr
end ThemedPrompt
