import ThemedPrompt.Json.Token
import ThemedPrompt.Json.Writer
import ThemedPrompt.Proofs.Text.Cutting
import ThemedPrompt.Proofs.Text.Numeral

/-! # Written strings and integers of JSON

A quoted text is read as the codes of its characters, which are those of no surrogates. An integer is
read as itself if nothing follows that could continue it.
-/
namespace ThemedPrompt
namespace Json
open Text

/-- The codes of the characters that are escaped by number. -/
theorem hexNumber?_escape {n : Nat} (hn : n < 0x20) :
    hexNumber? ['0', '0', hexDigit (n / 16), hexDigit (n % 16)] = some n := by
  revert n
  decide

theorem stringUnits?_plain {c : Char} (hquote : c ≠ '"') (hbackslash : c ≠ '\\')
    (hcontrol : ¬ c.toNat < 0x20) (t : Text) :
    stringUnits? (c :: t) = (stringUnits? t).map fun (units, after) => (c.toNat :: units, after) := by
  rw [stringUnits?.eq_def]
  split <;> simp_all

theorem stringUnits?_simple {e c : Char} (he : e ≠ 'u') (hc : simpleEscape? e = some c) (t : Text) :
    stringUnits? ('\\' :: e :: t) =
      (stringUnits? t).map fun (units, after) => (c.toNat :: units, after) := by
  rw [stringUnits?]
  · rw [hc]
    cases stringUnits? t <;> rfl
  · rintro a b c d rest rfl
    exact fun _ => he rfl

theorem stringUnits?_number {n : Nat} (hn : n < 0x20) (t : Text) :
    stringUnits? ('\\' :: 'u' :: '0' :: '0' :: hexDigit (n / 16) :: hexDigit (n % 16) :: t) =
      (stringUnits? t).map fun (units, after) => (n :: units, after) := by
  rw [stringUnits?, hexNumber?_escape hn]
  cases stringUnits? t <;> rfl

theorem stringUnits?_escapeChar (c : Char) (t : Text) :
    stringUnits? (escapeChar c ++ t) =
      (stringUnits? t).map fun (units, after) => (c.toNat :: units, after) := by
  unfold escapeChar
  split
  case h_8 hquote hbackslash _ _ _ _ _ =>
    split
    · next hcontrol => exact stringUnits?_number hcontrol t
    · next hcontrol => exact stringUnits?_plain hquote hbackslash hcontrol t
  all_goals exact stringUnits?_simple (by decide) rfl t

theorem stringUnits?_flatMap_escapeChar (t rest : Text) :
    stringUnits? (t.flatMap escapeChar ++ '"' :: rest) = some (t.map Char.toNat, rest) := by
  induction t with
  | nil => rw [List.flatMap_nil, List.nil_append, stringUnits?]; rfl
  | cons c t ih =>
    rw [List.flatMap_cons, List.append_assoc, stringUnits?_escapeChar, ih]
    rfl

theorem toNat_not_surrogate (c : Char) : ¬ (0xd800 ≤ c.toNat ∧ c.toNat ≤ 0xdfff) := by
  intro ⟨hlow, hhigh⟩
  have hvalid : c.toNat.isValidChar := c.valid
  rcases hvalid with h | ⟨h, -⟩
  · omega
  · omega

theorem textOfUnits?_map_toNat (t : Text) : textOfUnits? (t.map Char.toNat) = some t := by
  induction t with
  | nil => rfl
  | cons c t ih =>
    have hc := toNat_not_surrogate c
    cases t with
    | nil => simp only [List.map_cons, List.map_nil, textOfUnits?, if_neg hc, Char.ofNat_toNat]
    | cons d t =>
      rw [List.map_cons, List.map_cons, textOfUnits?, if_neg (by omega), if_neg (by omega),
        ← List.map_cons, ih, Char.ofNat_toNat]
      rfl

theorem token?_quoted (t rest : Text) :
    token? (quoted t ++ rest) = some (.string (t.map Char.toNat), rest) := by
  have hunits : stringUnits? (t.flatMap escapeChar ++ ['"'] ++ rest) =
      some (t.map Char.toNat, rest) := by
    rw [List.append_assoc]
    exact stringUnits?_flatMap_escapeChar t rest
  rw [quoted, List.cons_append, token?, hunits]
  rfl

/-- What may follow a value: nothing that continues a number. -/
def Ends (rest : Text) : Prop :=
  ∀ c ∈ rest.head?, c = ',' ∨ c = ']' ∨ c = '\x7d' ∨ isSpace c = true

theorem Ends.head {rest : Text} (h : Ends rest) : ∀ c ∈ rest.head?,
    c.isDigit = false ∧ c ≠ '.' ∧ c ≠ 'e' ∧ c ≠ 'E' := by
  intro c hc
  rcases h c hc with rfl | rfl | rfl | hspace
  · decide
  · decide
  · decide
  · simp only [isSpace, Bool.or_eq_true, decide_eq_true_eq] at hspace
    rcases hspace with ((rfl | rfl) | rfl) | rfl <;> decide

theorem fraction_of_head {t : Text} (h : ∀ c ∈ t.head?, c ≠ '.') : fraction t = (none, t) := by
  cases t with
  | nil => rfl
  | cons c t =>
    unfold fraction
    split
    · next rest heq => exact absurd (List.cons.inj heq).1 (h c rfl)
    · rfl

theorem exponent_of_head {t : Text} (h : ∀ c ∈ t.head?, c ≠ 'e' ∧ c ≠ 'E') :
    exponent t = (none, t) := by
  cases t with
  | nil => rfl
  | cons c t =>
    obtain ⟨he, hE⟩ := h c rfl
    rw [exponent, if_neg (not_or.2 ⟨he, hE⟩)]

section
variable {rest : Text}

theorem whole?_ofNat (n : Nat) (hrest : Ends rest) : whole? (ofNat n ++ rest) = some (ofNat n, rest) := by
  obtain ⟨hne, hdigits⟩ := isNumeral_ofNat n
  obtain ⟨htake, hdrop⟩ := span_append hdigits fun c hc => (hrest.head c hc).1
  rcases Nat.eq_zero_or_pos n with rfl | hpos
  · rw [ofNat_zero, List.singleton_append, whole?]
  · have hread : digits? (ofNat n ++ rest) = some (ofNat n, rest) := by
      rw [digits?, htake, hdrop, if_neg hne]
    have hfirst := head_ofNat hpos
    unfold whole?
    split
    · next tail h =>
      obtain ⟨c, cs, hfront⟩ := List.exists_cons_of_ne_nil hne
      rw [hfront] at h hfirst
      exact absurd (List.cons.inj h).1 (hfirst c rfl)
    · exact hread

theorem magnitude?_ofNat (negative : Bool) (n : Nat) (hrest : Ends rest) :
    magnitude? negative (ofNat n ++ rest) = some (⟨negative, ofNat n, none, none⟩, rest) := by
  have hfraction : fraction rest = (none, rest) :=
    fraction_of_head fun c hc => (hrest.head c hc).2.1
  have hexponent : exponent rest = (none, rest) :=
    exponent_of_head fun c hc => (hrest.head c hc).2.2
  rw [magnitude?, whole?_ofNat n hrest]
  simp only [Option.bind_eq_bind, Option.bind_some, hfraction, hexponent]
  rfl

/-- Integers that are not read as doubles. -/
def Fits (n : Int) : Prop := -Nat.pow 2 63 ≤ n ∧ n < Nat.pow 2 64

theorem numeral?_ofInt {n : Int} (hn : Fits n) (hrest : Ends rest) :
    ∃ x, numeral? (ofInt n ++ rest) = some (x, rest) ∧ x.toDocument = .int n := by
  cases n with
  | ofNat n =>
    refine ⟨⟨false, ofNat n, none, none⟩, ?_, ?_⟩
    · rw [ofInt, ← magnitude?_ofNat false n hrest, numeral?]
      intro tail h
      obtain ⟨c, cs, hfront⟩ := List.exists_cons_of_ne_nil (isNumeral_ofNat n).1
      have hc := (isNumeral_ofNat n).2 c (by simp [hfront])
      rw [hfront] at h
      rw [(List.cons.inj h).1] at hc
      exact absurd hc (by decide)
    · have hlt : n < Nat.pow 2 64 := Int.ofNat_lt.1 hn.2
      have hint : Numeral.int? ⟨false, ofNat n, none, none⟩ = some (.ofNat n) := by
        simp [Numeral.int?, hlt]
      rw [Numeral.toDocument, hint]
  | negSucc n =>
    refine ⟨⟨true, ofNat (n + 1), none, none⟩, ?_, ?_⟩
    · rw [ofInt, List.cons_append, numeral?, magnitude?_ofNat true (n + 1) hrest]
    · have hle : n + 1 ≤ Nat.pow 2 63 := by have := hn.1; omega
      have hint : Numeral.int? ⟨true, ofNat (n + 1), none, none⟩ = some (.negSucc n) := by
        simp [Numeral.int?, hle, Int.negSucc_eq]
      rw [Numeral.toDocument, hint]

theorem token?_of_head {c : Char} (hc : c = '-' ∨ c.isDigit = true) (t : Text) :
    token? (c :: t) = (numeral? (c :: t)).map fun (x, after) => (.scalar x.toDocument, after) := by
  unfold token?
  split
  case h_11 => rfl
  all_goals
    next h =>
      obtain ⟨rfl, -⟩ := List.cons.inj h
      exact absurd hc (by decide)

theorem token?_ofInt {n : Int} (hn : Fits n) (hrest : Ends rest) :
    token? (ofInt n ++ rest) = some (.scalar (.int n), rest) := by
  obtain ⟨c, t, hfront⟩ := List.exists_cons_of_ne_nil (ofInt_ne_nil n)
  have hc := mem_ofInt c (by rw [hfront]; exact List.mem_cons_self)
  obtain ⟨x, hread, hx⟩ := numeral?_ofInt hn hrest
  rw [hfront, List.cons_append] at hread ⊢
  rw [token?_of_head hc, hread, Option.map_some]
  dsimp only
  rw [hx]

end

end Json
end ThemedPrompt
