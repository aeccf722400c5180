import ThemedPrompt.Text.Utf8

/-! # Boundaries of characters

An offset counts the bytes of a text in front of it. Between two offsets in order there is a text if
a character starts at each of them, or the text ends there. A byte of the ASCII kind is a character,
so an offset at or behind one never cuts a character in two.
-/
namespace ThemedPrompt
namespace Utf8

/-- Whether the offset lies between two characters, or at an end of the text. -/
def IsBoundary (t : Text) (offset : Nat) : Prop :=
  ∃ front back, t = front ++ back ∧ (encode front).length = offset

/-- The same told by the byte at the offset. -/
def isBoundary (bytes : Bytes) (offset : Nat) : Bool :=
  match bytes[offset]? with
  | some b => !isContinuation b
  | none => offset == bytes.length

/-- The text between two offsets; there is none if they are out of order or range, or if one of them
is inside of a character. -/
def slice? (bytes : Bytes) (start stop : Nat) : Option Text :=
  if start ≤ stop ∧ isBoundary bytes start = true ∧ isBoundary bytes stop = true then
    decode? ((bytes.take stop).drop start)
  else none

@[simp] theorem encode_nil : encode [] = [] := rfl

@[simp] theorem encode_cons (c : Char) (t : Text) :
    encode (c :: t) = String.utf8EncodeChar c ++ encode t := List.flatMap_cons

@[simp] theorem encode_append (t u : Text) : encode (t ++ u) = encode t ++ encode u :=
  List.flatMap_append

theorem encodeChar_of_ascii {c : Char} (hc : c.toNat < 128) :
    String.utf8EncodeChar c = [UInt8.ofNat c.toNat] := by
  unfold String.utf8EncodeChar
  exact if_pos (Nat.le_of_lt_succ hc)

/-- Beyond the ASCII kind the first byte of a character tells that it is the first. -/
theorem encodeChar_of_not_ascii {c : Char} (hc : 128 ≤ c.toNat) :
    ∃ b bs, String.utf8EncodeChar c = b :: bs ∧ 192 ≤ b.toNat ∧ ∀ x ∈ bs, 128 ≤ x.toNat := by
  have hbyte {n low : Nat} (hlow : low ≤ n) (hhigh : n < 256) : low ≤ (UInt8.ofNat n).toNat := by
    rw [UInt8.toNat_ofNat']
    omega
  fun_cases String.utf8EncodeChar c with
  | case1 v h =>
    have hv : c.toNat = v := rfl
    omega
  | case2 v =>
    refine ⟨_, _, rfl, hbyte (by omega) (by omega), ?_⟩
    rw [List.forall_mem_singleton]
    exact hbyte (by omega) (by omega)
  | case3 v =>
    refine ⟨_, _, rfl, hbyte (by omega) (by omega), ?_⟩
    rw [List.forall_mem_cons, List.forall_mem_singleton]
    exact ⟨hbyte (by omega) (by omega), hbyte (by omega) (by omega)⟩
  | case4 v =>
    refine ⟨_, _, rfl, hbyte (by omega) (by omega), ?_⟩
    rw [List.forall_mem_cons, List.forall_mem_cons, List.forall_mem_singleton]
    exact ⟨hbyte (by omega) (by omega), hbyte (by omega) (by omega), hbyte (by omega) (by omega)⟩

theorem le_of_mem_encodeChar {c : Char} (hc : 128 ≤ c.toNat) {b : UInt8}
    (hb : b ∈ String.utf8EncodeChar c) : 128 ≤ b.toNat := by
  obtain ⟨first, rest, hchar, hfirst, hrest⟩ := encodeChar_of_not_ascii hc
  rw [hchar, List.mem_cons] at hb
  rcases hb with rfl | hb
  · omega
  · exact hrest b hb

/-- The first byte of a character continues none. -/
theorem exists_encodeChar (c : Char) :
    ∃ b bs, String.utf8EncodeChar c = b :: bs ∧ isContinuation b = false := by
  rcases Nat.lt_or_ge c.toNat 128 with hc | hc
  · refine ⟨_, _, encodeChar_of_ascii hc, ?_⟩
    simp only [isContinuation, Bool.and_eq_false_iff, decide_eq_false_iff_not,
      UInt8.le_iff_toNat_le, UInt8.toNat_ofNat']
    left
    have h80 : (0x80 : UInt8).toNat = 128 := rfl
    omega
  · obtain ⟨b, bs, hchar, hb, -⟩ := encodeChar_of_not_ascii hc
    refine ⟨b, bs, hchar, ?_⟩
    simp only [isContinuation, Bool.and_eq_false_iff, decide_eq_false_iff_not,
      UInt8.le_iff_toNat_le]
    right
    have hbf : (0xbf : UInt8).toNat = 191 := rfl
    omega

theorem encode_eq_nil_iff {t : Text} : encode t = [] ↔ t = [] := by
  cases t with
  | nil => exact iff_of_true rfl rfl
  | cons c cs =>
    obtain ⟨b, bs, hchar, -⟩ := exists_encodeChar c
    simp [hchar]

theorem isBoundary_encode_append (front back : Text) :
    isBoundary (encode (front ++ back)) (encode front).length = true := by
  rw [isBoundary, encode_append, List.getElem?_append_right (Nat.le_refl _), Nat.sub_self]
  cases back with
  | nil => simp
  | cons c cs =>
    obtain ⟨b, bs, hchar, hb⟩ := exists_encodeChar c
    simp [hchar, hb]

/-- A slice between the ends of a part of a text is that part. -/
theorem slice?_encode (front mid back : Text) :
    slice? (encode (front ++ (mid ++ back))) (encode front).length
      (encode (front ++ mid)).length = some mid := by
  have hstart := isBoundary_encode_append front (mid ++ back)
  have hstop := isBoundary_encode_append (front ++ mid) back
  rw [List.append_assoc] at hstop
  have hle : (encode front).length ≤ (encode (front ++ mid)).length := by simp
  have hbytes : ((encode (front ++ (mid ++ back))).take (encode (front ++ mid)).length).drop
      (encode front).length = encode mid := by
    rw [← List.append_assoc, encode_append (front ++ mid), List.take_left, encode_append,
      List.drop_left]
  rw [slice?, if_pos ⟨hle, hstart, hstop⟩, hbytes, decode?_encode]

example : slice? (encode "éa".toList) 0 1 = none ∧ slice? (encode "éa".toList) 3 2 = none := by
  decide +kernel

theorem IsBoundary.zero (t : Text) : IsBoundary t 0 := ⟨[], t, rfl, rfl⟩

theorem IsBoundary.length (t : Text) : IsBoundary t (encode t).length :=
  ⟨t, [], (List.append_nil t).symm, rfl⟩

theorem IsBoundary.cons {t : Text} {offset : Nat} (h : IsBoundary t offset) (c : Char) :
    IsBoundary (c :: t) ((String.utf8EncodeChar c).length + offset) := by
  obtain ⟨front, back, rfl, rfl⟩ := h
  exact ⟨c :: front, back, rfl, by simp⟩

/-- A byte of the ASCII kind is a character of its own. -/
theorem isBoundary_of_ascii {t : Text} {offset : Nat} {b : UInt8} (h : (encode t)[offset]? = some b)
    (hb : b.toNat < 128) : IsBoundary t offset ∧ IsBoundary t (offset + 1) := by
  induction t generalizing offset with
  | nil => cases h
  | cons c cs ih =>
    rw [encode_cons] at h
    rcases Nat.lt_or_ge offset (String.utf8EncodeChar c).length with hoffset | hoffset
    · rw [List.getElem?_append_left hoffset] at h
      have hc : c.toNat < 128 := Nat.lt_of_not_le fun hc =>
        Nat.not_lt.2 (le_of_mem_encodeChar hc (List.mem_of_getElem? h)) hb
      rw [encodeChar_of_ascii hc, List.length_singleton] at hoffset
      obtain rfl : offset = 0 := by omega
      exact ⟨.zero _, [c], cs, rfl, by simp [encodeChar_of_ascii hc]⟩
    · rw [List.getElem?_append_right hoffset] at h
      obtain ⟨hhere, hnext⟩ := ih h
      have hhere := hhere.cons c
      have hnext := hnext.cons c
      rw [Nat.add_sub_of_le hoffset] at hhere
      rw [← Nat.add_assoc, Nat.add_sub_of_le hoffset] at hnext
      exact ⟨hhere, hnext⟩

/-- Of two boundaries in order the text in front of the first is the start of that in front of the
second. -/
theorem IsBoundary.exists_between {t : Text} {start stop : Nat} (hstart : IsBoundary t start)
    (hstop : IsBoundary t stop) (hle : start ≤ stop) : ∃ front mid back,
      t = front ++ (mid ++ back) ∧ (encode front).length = start ∧
        (encode (front ++ mid)).length = stop := by
  obtain ⟨front, back, rfl, rfl⟩ := hstart
  obtain ⟨front', back', hsplit, rfl⟩ := hstop
  have hprefix : front <+: front' := by
    rcases List.prefix_or_prefix_of_prefix (List.prefix_append front back)
      (hsplit ▸ List.prefix_append front' back') with h | ⟨mid, rfl⟩
    · exact h
    · -- nothing is between the two, as the second is no nearer to the start than the first
      have hmid : encode mid = [] := by
        rw [encode_append, List.length_append] at hle
        exact List.length_eq_zero_iff.1 (by omega)
      simp [encode_eq_nil_iff.1 hmid]
  obtain ⟨mid, rfl⟩ := hprefix
  rw [List.append_assoc] at hsplit
  exact ⟨front, mid, back', hsplit, rfl, rfl⟩

theorem exists_slice? {t : Text} {start stop : Nat} (hstart : IsBoundary t start)
    (hstop : IsBoundary t stop) (hle : start ≤ stop) :
    ∃ content, slice? (encode t) start stop = some content := by
  obtain ⟨front, mid, back, rfl, rfl, rfl⟩ := hstart.exists_between hstop hle
  exact ⟨mid, slice?_encode front mid back⟩

end Utf8
end ThemedPrompt
