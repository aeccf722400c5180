import ThemedPrompt.Proofs.Sgr.ByteScanner
import ThemedPrompt.Proofs.Sgr.Isolation

/-! # The two scanners agree

The scanner of characters keeps text where the scanner of bytes keeps offsets. Whatever the text,
the bytes of each character take the one to where the other goes in one step, so that both end with
the same runs.
-/
namespace ThemedPrompt
namespace Sgr
open Text Utf8

/-- What a scanner has set aside, the literal text and the unfinished sequence behind it. -/
def Scanner.aside (u : Scanner) : Text := u.literal.reverse ++ u.pending.raw.reverse

theorem Scanner.abandon_eq (u : Scanner) (c : Char) : u.abandon c = u.settle.text c := by
  rw [abandon, text, text]
  split <;> rfl

theorem Scanner.aside_settle (u : Scanner) : u.settle.aside = u.aside := by
  simp [aside, settle, Pending.raw]

namespace ByteScanner

section
variable {b : UInt8} {bs : Bytes} {c : Char}

/-- The bytes beyond the ASCII kind are apart from those that the scanner looks for. -/
theorem first_byte_cases (hchar : String.utf8EncodeChar c = b :: bs) :
    c.toNat < 128 ∧ b = byte c ∧ bs = [] ∨ 128 ≤ c.toNat ∧ ∀ x ∈ b :: bs, 128 ≤ x.toNat := by
  rcases Nat.lt_or_ge c.toNat 128 with hc | hc
  · rw [encodeChar_of_ascii hc] at hchar
    cases hchar
    exact .inl ⟨hc, rfl, rfl⟩
  · refine .inr ⟨hc, ?_⟩
    rw [← hchar]
    exact fun x => le_of_mem_encodeChar hc

theorem toNat_byte (hc : c.toNat < 128) : (byte c).toNat = c.toNat := by
  rw [byte, UInt8.toNat_ofNat']
  omega

theorem eq_byte_iff (hchar : String.utf8EncodeChar c = b :: bs) {a : Char} (ha : a.toNat < 128) :
    b = byte a ↔ c = a := by
  rw [← UInt8.toNat_inj, toNat_byte ha, ← Char.toNat_inj]
  rcases first_byte_cases hchar with ⟨hc, rfl, -⟩ | ⟨hc, hb⟩
  · rw [toNat_byte hc]
  · have := hb b List.mem_cons_self
    omega

theorem byte_digit_iff (hchar : String.utf8EncodeChar c = b :: bs) :
    (byte '0' ≤ b ∧ b ≤ byte '9') ↔ c.isDigit = true := by
  have hlow : (byte '0').toNat = 48 := rfl
  have hhigh : (byte '9').toNat = 57 := rfl
  rw [isDigit_iff_bounds, UInt8.le_iff_toNat_le, UInt8.le_iff_toNat_le, hlow, hhigh]
  rcases first_byte_cases hchar with ⟨hc, rfl, -⟩ | ⟨hc, hb⟩
  · rw [toNat_byte hc]
  · have := hb b List.mem_cons_self
    omega

/-- Sticking twice is sticking once. -/
theorem pushDigit_byte (n : Nat) (hc : c.isDigit = true) :
    pushDigit n (byte c) = Scanner.pushDigit n c := by
  obtain ⟨hlow, hhigh⟩ := (isDigit_iff_bounds c).1 hc
  have hzero : (byte '0').toNat = 48 := rfl
  have hbyte : (byte c).toNat = c.toNat := toNat_byte (by omega)
  have hle : byte '0' ≤ byte c := by
    rw [UInt8.le_iff_toNat_le, hbyte]
    exact hlow
  rw [pushDigit, Scanner.pushDigit, UInt8.toNat_sub_of_le _ _ hle, hbyte, hzero, digitValue]
  omega

end

variable {front back : Text} {s : ByteScanner} {u : Scanner}

/-- What is set aside for a sequence. -/
def Keeps (s : ByteScanner) : Pending → Prop
  | .none => s.mode = .text
  | .escape => s.mode = .escape
  | .parameters v => s.mode = .parameters v.current.isNone ∧ s.codes = v.codes.reverse ∧
      s.current = v.current.getD 0

/-- The scanners have read the same text: what the one has set aside ends it, and starts where the
other says. -/
structure Agrees (front : Text) (s : ByteScanner) (u : Scanner) : Prop where
  offset : s.offset = (encode front).length
  style : s.style = u.style
  runs : s.runs = u.runs.reverse
  keeps : s.Keeps u.pending
  starts : ∃ before, front = before ++ u.aside ∧ s.literalStart = (encode before).length ∧
    (u.pending ≠ .none → s.escapeStart = (encode (before ++ u.literal.reverse)).length)

theorem agrees_start : Agrees [] {} {} where
  offset := rfl
  style := rfl
  runs := rfl
  keeps := rfl
  starts := ⟨[], rfl, rfl, fun h => absurd rfl h⟩

/-- The byte at the offset is the first one of the next character. -/
theorem Agrees.next?_eq (h : Agrees front s u) {c : Char} {b : UInt8} {bs : Bytes}
    (hchar : String.utf8EncodeChar c = b :: bs) (back : Text) :
    s.next? (encode (front ++ c :: back)) = s.read? (encode (front ++ c :: back)) b := by
  have hbyte : (encode (front ++ c :: back))[s.offset]? = some b := by
    simp [h.offset, hchar]
  rw [next?, hbyte, Option.bind_some]

/-- The iteration behind an escape, told by the character. -/
theorem Agrees.next?_escape (h : Agrees front s u) (hpending : u.pending = .escape) (c : Char)
    (back : Text) : s.next? (encode (front ++ c :: back)) =
      some (if c = '[' then s.inside true [] 0 else s.rescan) := by
  obtain ⟨b, bs, hchar, -⟩ := exists_encodeChar c
  have hmode : s.mode = .escape := by simpa [hpending, Keeps] using h.keeps
  rw [h.next?_eq hchar, read?, hmode]
  simp only [eq_byte_iff hchar (a := '[') (by decide)]

/-- The iteration in the numbers of a sequence, told by the character. -/
theorem Agrees.next?_parameters (h : Agrees front s u) {v : Unfinished}
    (hpending : u.pending = .parameters v) (c : Char) (back : Text) :
    s.next? (encode (front ++ c :: back)) =
      if c.isDigit then
        some (s.inside false v.codes.reverse (Scanner.pushDigit (v.current.getD 0) c))
      else match v.current with
        | none => some s.rescan
        | some n =>
          if c = ';' then some (s.inside true (n :: v.codes).reverse 0)
          else if c = 'm' then
            (slice? (encode (front ++ c :: back)) s.literalStart s.escapeStart).map s.complete
          else some s.rescan := by
  obtain ⟨b, bs, hchar, -⟩ := exists_encodeChar c
  have hkeeps := h.keeps
  rw [hpending] at hkeeps
  obtain ⟨hmode, hcodes, hcurrent⟩ := hkeeps
  rw [h.next?_eq hchar, read?, hmode]
  simp only [byte_digit_iff hchar, eq_byte_iff hchar (a := ';') (by decide),
    eq_byte_iff hchar (a := 'm') (by decide), hcodes, hcurrent]
  by_cases hc : c.isDigit = true
  · rcases first_byte_cases hchar with ⟨-, rfl, -⟩ | ⟨hhigh, -⟩
    · rw [if_pos hc, if_pos hc, pushDigit_byte _ hc]
    · have := (isDigit_iff_bounds c).1 hc
      omega
  · rw [if_neg hc, if_neg hc]
    cases v.current <;> simp

/-- Text without an escape is passed over. -/
theorem runs_skip (hmode : s.mode = .text) {pre bs : Bytes} (hpre : pre.length = s.offset)
    (hbs : byte esc ∉ bs) (post : Bytes) :
    Runs (pre ++ (bs ++ post)) s { s with offset := s.offset + bs.length } bs.length := by
  induction bs generalizing pre s with
  | nil => exact .refl s
  | cons b bs ih =>
    have hb : b ≠ byte esc := (List.ne_of_not_mem_cons hbs).symm
    have hbyte : (pre ++ (b :: bs ++ post))[s.offset]? = some b := by simp [← hpre]
    have hnext : s.next? (pre ++ (b :: bs ++ post)) = some { s with offset := s.offset + 1 } := by
      simp only [next?, hbyte, Option.bind_some, read?, hmode, onText, if_neg hb]
    have hpre' : (pre ++ [b]).length = s.offset + 1 := by simp [hpre]
    have hrest := ih (s := { s with offset := s.offset + 1 }) hmode hpre'
      (List.not_mem_of_not_mem_cons hbs)
    rw [List.append_assoc, List.singleton_append, ← List.cons_append] at hrest
    rw [List.length_cons, Nat.add_comm bs.length 1, ← Nat.add_assoc, Nat.add_comm 1]
    exact .step hnext hrest

/-- A character outside of a sequence. -/
theorem Agrees.text (h : Agrees front s u) (hpending : u.pending = .none) (c : Char)
    (back : Text) : ∃ s' k, Runs (encode (front ++ c :: back)) s s' k ∧
      Agrees (front ++ [c]) s' (u.text c) := by
  obtain ⟨b, bs, hchar, -⟩ := exists_encodeChar c
  have hmode : s.mode = .text := by simpa [hpending, Keeps] using h.keeps
  obtain ⟨before, hfront, hliteral, -⟩ := h.starts
  rw [Scanner.aside, hpending, Pending.raw, List.reverse_nil, List.append_nil] at hfront
  by_cases hc : c = esc
  · obtain rfl : b = byte esc := (eq_byte_iff hchar (by decide)).2 hc
    have hnext := h.next?_eq hchar back
    rw [read?, hmode, onText, if_pos rfl] at hnext
    rw [Scanner.text, if_pos hc]
    refine ⟨_, 1, .step hnext (.refl _), ?_, h.style, h.runs, rfl, before, ?_, hliteral, ?_⟩
    · simp [h.offset, hc, encodeChar_of_ascii (c := esc) (by decide)]
    · simp [Scanner.aside, Pending.raw, hfront, hc]
    · simp [h.offset, hfront]
  · have hbs : byte esc ∉ b :: bs := by
      rcases first_byte_cases hchar with ⟨-, rfl, rfl⟩ | ⟨-, hhigh⟩
      · rw [List.mem_singleton, eq_comm, eq_byte_iff hchar (by decide)]
        exact hc
      · exact fun hmem => absurd (hhigh _ hmem) (by decide)
    have hrun := runs_skip hmode h.offset.symm hbs (encode back)
    rw [← hchar, ← encode_cons, ← encode_append] at hrun
    rw [Scanner.text, if_neg hc]
    refine ⟨_, _, hrun, ?_, h.style, h.runs, hmode, before, ?_, hliteral, fun hp => absurd rfl hp⟩
    · simp [h.offset]
    · simp [Scanner.aside, Pending.raw, hfront]

/-- Giving up a sequence changes nothing that was set aside. -/
theorem Agrees.rescan (h : Agrees front s u) : Agrees front s.rescan u.settle where
  offset := h.offset
  style := h.style
  runs := h.runs
  keeps := rfl
  starts := by
    obtain ⟨before, hfront, hliteral, -⟩ := h.starts
    exact ⟨before, u.aside_settle.symm ▸ hfront, hliteral, fun hp => absurd rfl hp⟩

/-- A character that breaks a sequence off is looked at twice. -/
theorem Agrees.abandon (h : Agrees front s u) {c : Char} {back : Text}
    (hnext : s.next? (encode (front ++ c :: back)) = some s.rescan) :
    ∃ s' k, Runs (encode (front ++ c :: back)) s s' k ∧
      Agrees (front ++ [c]) s' (u.abandon c) := by
  obtain ⟨s', k, hrun, hagrees⟩ := h.rescan.text rfl c back
  exact ⟨s', k + 1, .step hnext hrun, u.abandon_eq c ▸ hagrees⟩

/-- A character that goes on with a sequence is a single byte. -/
theorem Agrees.inside (h : Agrees front s u) (hpending : u.pending ≠ .none) {c : Char}
    {back : Text} (hc : c.toNat < 128) {v : Unfinished} (hraw : v.raw = c :: u.pending.raw)
    (hnext : s.next? (encode (front ++ c :: back)) =
      some (s.inside v.current.isNone v.codes.reverse (v.current.getD 0))) :
    ∃ s' k, Runs (encode (front ++ c :: back)) s s' k ∧
      Agrees (front ++ [c]) s' { u with pending := .parameters v } := by
  obtain ⟨before, hfront, hliteral, hescape⟩ := h.starts
  refine ⟨_, 1, .step hnext (.refl _), ?_, h.style, h.runs, ⟨rfl, rfl, rfl⟩, before, ?_, hliteral,
    fun _ => hescape hpending⟩
  · simp [ByteScanner.inside, h.offset, encodeChar_of_ascii hc]
  · simp [Scanner.aside, Pending.raw, hraw, hfront]

/-- The text in front of a sequence is cut out as the literal text that was set aside. -/
theorem Agrees.complete (h : Agrees front s u) {v : Unfinished}
    (hpending : u.pending = .parameters v) {n : Nat} (hn : v.current = some n) {back : Text}
    (hnext : s.next? (encode (front ++ 'm' :: back)) =
      (slice? (encode (front ++ 'm' :: back)) s.literalStart s.escapeStart).map s.complete) :
    ∃ s' k, Runs (encode (front ++ 'm' :: back)) s s' k ∧
      Agrees (front ++ ['m']) s' (u.complete (n :: v.codes).reverse) := by
  have hkeeps := h.keeps
  rw [hpending] at hkeeps
  obtain ⟨-, hcodes, hcurrent⟩ := hkeeps
  have hall : s.codes ++ [s.current] = (n :: v.codes).reverse := by simp [hcodes, hcurrent, hn]
  obtain ⟨before, hfront, hliteral, hescape⟩ := h.starts
  -- between the two offsets there is the literal text, and behind the second the sequence
  have htext : front ++ 'm' :: back =
      before ++ (u.literal.reverse ++ (u.pending.raw.reverse ++ 'm' :: back)) := by
    simp [hfront, Scanner.aside]
  have hslice : slice? (encode (front ++ 'm' :: back)) s.literalStart s.escapeStart =
      some u.literal.reverse := by
    rw [hliteral, hescape (by simp [hpending]), htext, slice?_encode]
  rw [hslice, Option.map_some] at hnext
  have hoffset : s.offset + 1 = (encode (front ++ ['m'])).length := by
    simp [h.offset, encodeChar_of_ascii (c := 'm') (by decide)]
  refine ⟨_, 1, .step hnext (.refl _), hoffset, ?_, ?_, rfl, front ++ ['m'],
    (List.append_nil _).symm, hoffset, fun hp => absurd rfl hp⟩
  · rw [Scanner.complete, ByteScanner.complete, h.style, hall]
  · rw [Scanner.complete, ByteScanner.complete, Scanner.reverse_flush, h.runs, h.style]

/-- The bytes of a character take the one scanner to where the other goes in a step. -/
theorem Agrees.step (h : Agrees front s u) (c : Char) (back : Text) :
    ∃ s' k, Runs (encode (front ++ c :: back)) s s' k ∧ Agrees (front ++ [c]) s' (u.step c) := by
  unfold Scanner.step
  split
  · next hp => exact h.text hp c back
  · next hp =>
    have hnext := h.next?_escape hp c back
    split
    · next hc =>
      rw [if_pos hc] at hnext
      subst hc
      exact h.inside (by simp [hp]) (by decide) (by simp [hp, Pending.raw]) hnext
    · next hc =>
      rw [if_neg hc] at hnext
      exact h.abandon hnext
  · next v hp =>
    have hpending : u.pending ≠ .none := by simp [hp]
    have hnext := h.next?_parameters hp c back
    split
    · next hc =>
      have hascii : c.toNat < 128 := Nat.lt_of_le_of_lt ((isDigit_iff_bounds c).1 hc).2 (by decide)
      rw [if_pos hc] at hnext
      exact h.inside hpending hascii (by simp [hp, Pending.raw]) hnext
    · next hc =>
      rw [if_neg hc] at hnext
      split
      · next hv =>
        rw [hv] at hnext
        exact h.abandon hnext
      · next n hv =>
        rw [hv] at hnext
        dsimp only at hnext
        split_ifs at hnext ⊢ with hsemicolon hm
        · subst hsemicolon
          exact h.inside hpending (by decide) (by simp [hp, Pending.raw]) hnext
        · subst hm
          exact h.complete hp hv hnext
        · exact h.abandon hnext

theorem Agrees.exists_runs (h : Agrees front s u) (back : Text) :
    ∃ s' k, Runs (encode (front ++ back)) s s' k ∧
      Agrees (front ++ back) s' (back.foldl Scanner.step u) := by
  induction back generalizing front s u with
  | nil => exact ⟨s, 0, .refl s, (List.append_nil front).symm ▸ h⟩
  | cons c cs ih =>
    obtain ⟨s', k, hrun, hagrees⟩ := h.step c cs
    obtain ⟨s'', l, hrest, hend⟩ := ih hagrees
    rw [List.append_assoc, List.singleton_append] at hrest hend
    exact ⟨s'', k + l, hrun.trans hrest, hend⟩

/-- Where the bytes are over, the rest of the text is the last run. -/
theorem Agrees.finish? (h : Agrees front s u) : s.finish? (encode front) = some u.finish := by
  obtain ⟨before, hfront, hliteral, -⟩ := h.starts
  have hslice : slice? (encode front) s.literalStart (encode front).length = some u.aside := by
    have hcut := slice?_encode before u.aside []
    rwa [List.append_nil, ← hfront, ← hliteral] at hcut
  rw [ByteScanner.finish?, hslice, Option.map_some, Scanner.finish, Scanner.reverse_flush,
    List.reverse_append, h.runs, h.style, Scanner.aside]

/-- The loop over the bytes ends. -/
theorem exists_runs_decode (t : Text) : ∃ s k, Runs (encode t) {} s k ∧
    s.offset = (encode t).length ∧ s.finish? (encode t) = some (decode t) := by
  obtain ⟨s, k, hrun, hagrees⟩ := agrees_start.exists_runs t
  exact ⟨s, k, hrun, hagrees.offset, hagrees.finish?⟩

/-- Wherever it ends, the runs are those of the text. -/
theorem Runs.finish?_eq {t : Text} {k : Nat} (hrun : Runs (encode t) {} s k)
    (hoffset : s.offset = (encode t).length) : s.finish? (encode t) = some (decode t) := by
  obtain ⟨last, l, hlast, hend, hfinish⟩ := exists_runs_decode t
  rwa [hrun.eq_of_over hlast (next?_of_over hoffset) (next?_of_over hend)]

/-- On every run over the bytes of a text the offsets are in order, in range and between characters,
so that both slices are there. Until the bytes are over there is a next iteration, which moves or is
followed by one that does, and there are no more than two for each byte. The end is reached, and the
runs are then those of the text. -/
theorem loop_offsets_in_bounds (t : Text) :
    (∀ s k, Runs (encode t) {} s k →
      Placed t s ∧
      (s.mode ≠ .text →
        ∃ content, slice? (encode t) s.literalStart s.escapeStart = some content) ∧
      (∃ content, slice? (encode t) s.literalStart (encode t).length = some content) ∧
      (s.offset < (encode t).length → ∃ s', s.next? (encode t) = some s' ∧
        (s'.offset = s.offset + 1 ∨ s'.offset = s.offset ∧
          ∃ s'', s'.next? (encode t) = some s'' ∧ s''.offset = s.offset + 1)) ∧
      (s.offset = (encode t).length → s.finish? (encode t) = some (decode t)) ∧
      k ≤ 2 * s.offset) ∧
    ∃ s k, Runs (encode t) {} s k ∧ s.offset = (encode t).length := by
  constructor
  · intro s k hrun
    have hplaced := hrun.placed (placed_start t)
    refine ⟨hplaced, hplaced.exists_slice_escape, hplaced.exists_slice_rest, ?_, hrun.finish?_eq, ?_⟩
    · intro hoffset
      obtain ⟨s', hnext⟩ := hplaced.exists_next hoffset
      refine ⟨s', hnext, ?_⟩
      rcases offset_of_next? hnext with hmove | ⟨hstay, -⟩
      · exact .inl hmove
      · exact .inr ⟨hstay, hplaced.exists_next_of_offset_eq hnext hstay⟩
    · have hlength := hrun.length_add_owed_le
      have howed : owed {} = 0 := rfl
      omega
  · obtain ⟨s, k, hrun, hoffset, -⟩ := exists_runs_decode t
    exact ⟨s, k, hrun, hoffset⟩

/-- A letter of two bytes, and a sequence that the next one breaks off: the escape of that one is
looked at twice. -/
theorem loop_offsets_in_bounds_broken :
    let t := "é\x1b[1\x1b[31mü".toList
    ∃ s, Runs (encode t) {} s 5 ∧ s.mode ≠ .text ∧ Placed t s ∧
      (∃ content, slice? (encode t) s.literalStart s.escapeStart = some content) ∧
      ∃ s', s.next? (encode t) = some s' ∧ s'.offset = s.offset ∧
        ∃ s'', s'.next? (encode t) = some s'' ∧ s''.offset = s.offset + 1 := by
  intro t
  let s : ByteScanner :=
    { offset := 5, mode := .parameters false, escapeStart := 2, current := 1 }
  have hrun : Runs (encode t) {} s 5 :=
    .step rfl (.step rfl (.step rfl (.step rfl (.step rfl (.refl s)))))
  obtain ⟨hplaced, hslice, -, hmoves, -⟩ := (loop_offsets_in_bounds t).1 s 5 hrun
  have hmode : s.mode ≠ .text := Mode.noConfusion
  obtain ⟨s', hnext, hmove⟩ := hmoves (by decide +kernel)
  have hstay : s' = s.rescan := Option.some.inj (hnext.symm.trans rfl)
  refine ⟨s, hrun, hmode, hplaced, hslice hmode, s', hnext, hstay ▸ rfl, ?_⟩
  rcases hmove with hmove | ⟨-, hagain⟩
  · subst hstay
    exact absurd hmove (by decide)
  · exact hagain

end ByteScanner
end Sgr
end ThemedPrompt
