import ThemedPrompt.Proofs.Color.Hexadecimal
import ThemedPrompt.Proofs.Text.Boundaries

/-! # The hexadecimal forms of a colour

A colour is read from what it is written as, in either case and with or without the `#`, and from
nothing else. So six digits are all that passes, be they counted as characters or as bytes.
-/
namespace ThemedPrompt

namespace Text

/-- Lower case is for letters of the ASCII kind. -/
theorem toLower_of_le_toNat {c : Char} (hc : 128 ≤ c.toNat) : c.toLower = c := by
  unfold Char.toLower
  refine dif_neg fun h => ?_
  have hz : c.toNat ≤ 'Z'.toNat := h.2
  exact absurd (Nat.le_trans hc hz) (by decide)

theorem isHexDigit_toLower (c : Char) : isHexDigit c.toLower = isHexDigit c := by
  rcases Nat.lt_or_ge c.toNat 128 with hc | hc
  · exact of_ascii (P := fun c => isHexDigit c.toLower = isHexDigit c) (by decide) hc
  · rw [toLower_of_le_toNat hc]

theorem eq_hash_of_toLower {c : Char} : c.toLower = '#' → c = '#' := by
  rcases Nat.lt_or_ge c.toNat 128 with hc | hc
  · exact of_ascii (P := fun c => c.toLower = '#' → c = '#') (by decide) hc
  · rw [toLower_of_le_toNat hc]
    exact id

theorem hexValue?_hexDigit : ∀ n < 16, hexValue? (hexDigit n) = some n := by
  decide

theorem isHexDigit_hexDigit : ∀ n < 16, isHexDigit (hexDigit n) = true := by
  decide

/-- A byte is read back from the two digits that it is written with. -/
theorem byteOfHex?_hexDigit (b : UInt8) :
    byteOfHex? (hexDigit (b.toNat / 16)) (hexDigit (b.toNat % 16)) = some b := by
  have hb := b.toNat_lt
  have hhigh := hexValue?_hexDigit (b.toNat / 16) (by omega)
  have hlow := hexValue?_hexDigit (b.toNat % 16) (by omega)
  have hsum : 16 * (b.toNat / 16) + b.toNat % 16 = b.toNat := by omega
  rw [byteOfHex?, hhigh, hlow]
  dsimp only [Option.bind_eq_bind, Option.bind_some]
  rw [hsum, UInt8.ofNat_toNat]
  rfl

theorem isHexDigit_of_mem_hexByte {b : UInt8} {c : Char} (hc : c ∈ hexByte b) :
    isHexDigit c = true := by
  have hb := b.toNat_lt
  rw [hexByte, List.mem_cons, List.mem_singleton] at hc
  rcases hc with rfl | rfl
  · exact isHexDigit_hexDigit _ (by omega)
  · exact isHexDigit_hexDigit _ (by omega)

/-- Whether a text is six hexadecimal digits. -/
def IsSixDigits (t : Text) : Prop := t.length = 6 ∧ ∀ c ∈ t, isHexDigit c = true

theorem isSixDigits_lower_iff (t : Text) : IsSixDigits (lower t) ↔ IsSixDigits t := by
  simp [IsSixDigits, lower, isHexDigit_toLower]

theorem IsSixDigits.ne_hash_cons {t : Text} (ht : IsSixDigits t) (rest : Text) :
    t ≠ '#' :: rest := by
  rintro rfl
  exact absurd (ht.2 '#' List.mem_cons_self) (by decide)

/-- The text without one `#` in front. -/
def unhashed : Text → Text
  | '#' :: rest => rest
  | t => t

theorem unhashed_of_ne {t : Text} (ht : ∀ rest, t ≠ '#' :: rest) : unhashed t = t := by
  unfold unhashed
  split
  · next rest => exact absurd rfl (ht rest)
  · rfl

theorem isSixDigits_unhashed_iff (t : Text) :
    IsSixDigits (unhashed t) ↔ ∃ digits, IsSixDigits digits ∧ (t = digits ∨ t = '#' :: digits) := by
  constructor
  · intro ht
    refine ⟨unhashed t, ht, ?_⟩
    unfold unhashed
    split
    · exact .inr rfl
    · exact .inl rfl
  · rintro ⟨digits, hdigits, rfl | rfl⟩
    · rwa [unhashed_of_ne hdigits.ne_hash_cons]
    · exact hdigits

end Text

namespace Utf8
open Text

def isHexByte (b : UInt8) : Bool :=
  (48 ≤ b && b ≤ 57) || (97 ≤ b && b ≤ 102) || (65 ≤ b && b ≤ 70)

theorem toNat_lt_of_isHexByte {b : UInt8} (hb : isHexByte b = true) : b.toNat < 128 := by
  simp only [isHexByte, Bool.or_eq_true, Bool.and_eq_true, decide_eq_true_eq,
    UInt8.le_iff_toNat_le] at hb
  rcases hb with (⟨_, h⟩ | ⟨_, h⟩) | ⟨_, h⟩
  · exact Nat.lt_of_le_of_lt h (by decide)
  · exact Nat.lt_of_le_of_lt h (by decide)
  · exact Nat.lt_of_le_of_lt h (by decide)

theorem isHexByte_encodeChar_iff (c : Char) :
    (∀ b ∈ String.utf8EncodeChar c, isHexByte b = true) ↔ isHexDigit c = true := by
  rcases Nat.lt_or_ge c.toNat 128 with hc | hc
  · have hbyte : isHexByte (UInt8.ofNat c.toNat) = isHexDigit c :=
      of_ascii (P := fun c => isHexByte (UInt8.ofNat c.toNat) = isHexDigit c) (by decide) hc
    rw [encodeChar_of_ascii hc, List.forall_mem_singleton, hbyte]
  · obtain ⟨b, bs, hchar, hlow, -⟩ := encodeChar_of_not_ascii hc
    refine iff_of_false (fun h => ?_) (fun h => ?_)
    · have hb := toNat_lt_of_isHexByte (h b (hchar ▸ List.mem_cons_self))
      omega
    · exact absurd (toNat_lt_of_isHexDigit h) (Nat.not_lt.2 hc)

theorem length_encode_of_forall {t : Text} (ht : ∀ c ∈ t, isHexDigit c = true) :
    (encode t).length = t.length := by
  induction t with
  | nil => rfl
  | cons c cs ih =>
    obtain ⟨hc, hcs⟩ := List.forall_mem_cons.1 ht
    have hchar := encodeChar_of_ascii (toNat_lt_of_isHexDigit hc)
    rw [encode_cons, hchar, List.length_append, ih hcs, List.length_singleton, List.length_cons]
    omega

/-- Six digits are six bytes, and no other text is six bytes that are digits. -/
theorem isSixDigits_iff_encode (t : Text) :
    IsSixDigits t ↔ (encode t).length = 6 ∧ ∀ b ∈ encode t, isHexByte b = true := by
  have hbytes : (∀ b ∈ encode t, isHexByte b = true) ↔ ∀ c ∈ t, isHexDigit c = true := by
    rw [encode, List.forall_mem_flatMap]
    simp only [isHexByte_encodeChar_iff]
  rw [IsSixDigits, hbytes]
  constructor
  · rintro ⟨hlength, ht⟩
    exact ⟨(length_encode_of_forall ht).trans hlength, ht⟩
  · rintro ⟨hlength, ht⟩
    exact ⟨(length_encode_of_forall ht).symm.trans hlength, ht⟩

end Utf8

namespace Rgb
open Text

def digits (c : Rgb) : Text := hexByte c.red ++ hexByte c.green ++ hexByte c.blue

theorem isSixDigits_digits (c : Rgb) : IsSixDigits c.digits := by
  refine ⟨rfl, fun d hd => ?_⟩
  rw [digits, List.mem_append, List.mem_append] at hd
  rcases hd with (hd | hd) | hd
  · exact isHexDigit_of_mem_hexByte hd
  · exact isHexDigit_of_mem_hexByte hd
  · exact isHexDigit_of_mem_hexByte hd

theorem ofDigits?_digits (c : Rgb) : ofDigits? c.digits = some c := by
  simp [digits, hexByte, ofDigits?, byteOfHex?_hexDigit]

theorem digits_injective {c d : Rgb} (h : c.digits = d.digits) : c = d := by
  have hc := ofDigits?_digits c
  rw [h, ofDigits?_digits] at hc
  exact (Option.some.inj hc).symm

/-- Reading six digits and writing them again gives their lower case. -/
theorem exists_of_isSixDigits {t : Text} (ht : IsSixDigits t) :
    ∃ c, ofDigits? t = some c ∧ c.digits = lower t := by
  have hwritten := ofDigits?_map_toHex t
  rw [if_pos (by simpa [IsSixDigits] using ht)] at hwritten
  obtain ⟨c, hc, hhex⟩ := Option.map_eq_some_iff.1 hwritten
  exact ⟨c, hc, (List.cons.inj hhex).2⟩

theorem ofDigits?_of_not_isSixDigits {t : Text} (ht : ¬ IsSixDigits t) : ofDigits? t = none := by
  have hwritten := ofDigits?_map_toHex t
  rw [if_neg (by simpa [IsSixDigits] using ht)] at hwritten
  exact Option.map_eq_none_iff.1 hwritten

theorem isSome_ofDigits?_iff (t : Text) : (ofDigits? t).isSome = true ↔ IsSixDigits t := by
  by_cases ht : IsSixDigits t
  · obtain ⟨c, hc, -⟩ := exists_of_isSixDigits ht
    simp [hc, ht]
  · simp [ofDigits?_of_not_isSixDigits ht, ht]

theorem ofDigits?_eq_some_iff (t : Text) (c : Rgb) : ofDigits? t = some c ↔ lower t = c.digits := by
  constructor
  · intro h
    obtain ⟨d, hd, hdigits⟩ := exists_of_isSixDigits ((isSome_ofDigits?_iff t).1 (by simp [h]))
    obtain rfl := Option.some.inj (h.symm.trans hd)
    exact hdigits.symm
  · intro h
    have ht : IsSixDigits t := (isSixDigits_lower_iff t).1 (h ▸ isSixDigits_digits c)
    obtain ⟨d, hd, hdigits⟩ := exists_of_isSixDigits ht
    rw [hd, digits_injective (hdigits.trans h)]

theorem ofHex?_eq (t : Text) : ofHex? t = ofDigits? (unhashed t) := by
  unfold ofHex?
  split
  · rfl
  · next hne => rw [unhashed_of_ne fun rest h => hne rest h]

theorem lower_unhashed_eq_iff (t : Text) (c : Rgb) :
    lower (unhashed t) = c.digits ↔ lower t = c.toHex ∨ lower t = c.toHex.tail := by
  have hhash (rest : Text) : c.digits ≠ '#' :: rest := (isSixDigits_digits c).ne_hash_cons rest
  have hhex : c.toHex = '#' :: c.digits := rfl
  rw [hhex, List.tail_cons]
  unfold unhashed
  split
  · next rest =>
    have hlower : lower ('#' :: rest) = '#' :: lower rest := rfl
    rw [hlower, List.cons_inj_right]
    exact (or_iff_left fun h => hhash _ h.symm).symm
  · next hne =>
    refine (or_iff_right fun h => ?_).symm
    obtain ⟨d, ds, rfl, hd, -⟩ := List.map_eq_cons_iff.1 h
    exact hne ds (by rw [eq_hash_of_toLower hd])

/-- A text is read as a colour just when its lower case is the colour's hexadecimal form, with the
`#` or without it. So reading accepts six digits after one `#` or none, counted as characters or as
bytes, and gives back what has been written. -/
theorem ofHex?_inverse_toHex (t : Text) (c : Rgb) :
    (ofHex? t = some c ↔ lower t = c.toHex ∨ lower t = c.toHex.tail) ∧
    ((ofHex? t).isSome = true ↔
      ∃ digits, IsSixDigits digits ∧ (t = digits ∨ t = '#' :: digits)) ∧
    ((ofHex? t).isSome = true ↔ (Utf8.encode (unhashed t)).length = 6 ∧
      ∀ b ∈ Utf8.encode (unhashed t), Utf8.isHexByte b = true) ∧
    ofHex? c.toHex = some c ∧ ofHex? c.toHex.tail = some c := by
  have hdigits : unhashed c.digits = c.digits := unhashed_of_ne (isSixDigits_digits c).ne_hash_cons
  refine ⟨?_, ?_, ?_, ?_, ?_⟩
  · rw [ofHex?_eq, ofDigits?_eq_some_iff, lower_unhashed_eq_iff]
  · rw [ofHex?_eq, isSome_ofDigits?_iff, isSixDigits_unhashed_iff]
  · rw [ofHex?_eq, isSome_ofDigits?_iff, Utf8.isSixDigits_iff_encode]
  · exact ofDigits?_digits c
  · rw [ofHex?_eq]
    exact hdigits ▸ ofDigits?_digits c

example : ofHex? "#ABcdef".toList = some ⟨0xab, 0xcd, 0xef⟩ := by decide

end Rgb
end ThemedPrompt
