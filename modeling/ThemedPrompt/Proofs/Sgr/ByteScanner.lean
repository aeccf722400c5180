import ThemedPrompt.Proofs.Sgr.Scanner
import ThemedPrompt.Proofs.Text.Boundaries

/-! # The scanner over bytes

The bytes of a text are read one by one, and what is set aside is kept as offsets into them: where
the literal text starts, and where the last escape does. A byte that breaks a sequence off is looked
at twice, so an iteration may leave the offset where it is. The offsets stay in order and between
characters on every run, and so the text between them is always there to be cut out.
-/
namespace ThemedPrompt
namespace Sgr
open Utf8

/-- What a byte is read as; a number must have a digit right after `[` and `;`. -/
inductive Mode
  | text
  | escape
  | parameters (digitPending : Bool)
deriving DecidableEq, Repr

/-- The offset of the escape and the numbers of a sequence mean something inside of one only. -/
structure ByteScanner where
  offset : Nat := 0
  mode : Mode := .text
  literalStart : Nat := 0
  escapeStart : Nat := 0
  codes : List Nat := []
  current : Nat := 0
  style : Style := Style.plain
  runs : List Run := []
deriving DecidableEq, Repr

namespace ByteScanner

/-- The byte of a character of the ASCII kind. -/
def byte (c : Char) : UInt8 := UInt8.ofNat c.toNat

/-- Multiplication and addition each stick at the largest word. -/
def pushDigit (n : Nat) (b : UInt8) : Nat :=
  min (min (10 * n) codeLimit + (b - byte '0').toNat) codeLimit

def onText (s : ByteScanner) (b : UInt8) : ByteScanner :=
  if b = byte esc then { s with offset := s.offset + 1, mode := .escape, escapeStart := s.offset }
  else { s with offset := s.offset + 1 }

/-- The byte at the offset is read again, as text. -/
def rescan (s : ByteScanner) : ByteScanner := { s with mode := .text }

def inside (s : ByteScanner) (digitPending : Bool) (codes : List Nat) (current : Nat) :
    ByteScanner :=
  { s with
    offset := s.offset + 1
    mode := .parameters digitPending
    codes := codes
    current := current }

def complete (s : ByteScanner) (content : Text) : ByteScanner :=
  let codes := s.codes ++ [s.current]
  { s with
    offset := s.offset + 1
    mode := .text
    literalStart := s.offset + 1
    codes := codes
    style := s.style.apply codes
    runs := s.runs ++ runOf s.style content }

/-- An iteration on a byte; there is none if the text in front of a sequence cannot be cut out. -/
def read? (bytes : Bytes) (s : ByteScanner) (b : UInt8) : Option ByteScanner :=
  match s.mode with
  | .text => some (s.onText b)
  | .escape => some (if b = byte '[' then s.inside true [] 0 else s.rescan)
  | .parameters digitPending =>
    if byte '0' ≤ b ∧ b ≤ byte '9' then some (s.inside false s.codes (pushDigit s.current b))
    else if b = byte ';' ∧ digitPending = false then some (s.inside true (s.codes ++ [s.current]) 0)
    else if b = byte 'm' ∧ digitPending = false then
      (slice? bytes s.literalStart s.escapeStart).map s.complete
    else some s.rescan

/-- An iteration of the loop, which is over when there is no byte at the offset. -/
def next? (bytes : Bytes) (s : ByteScanner) : Option ByteScanner :=
  bytes[s.offset]?.bind (s.read? bytes)

/-- The runs at the end of the loop, with the rest of the text as the last one. -/
def finish? (bytes : Bytes) (s : ByteScanner) : Option (List Run) :=
  (slice? bytes s.literalStart bytes.length).map fun content => s.runs ++ runOf s.style content

/-- So many iterations lead from one state of the loop to another. -/
inductive Runs (bytes : Bytes) : ByteScanner → ByteScanner → Nat → Prop
  | refl (s) : Runs bytes s s 0
  | step {s s' s'' k} (h : s.next? bytes = some s') (hrest : Runs bytes s' s'' k) :
    Runs bytes s s'' (k + 1)

/-- How an iteration goes, and what it knows of the byte. -/
inductive Iteration (bytes : Bytes) (s : ByteScanner) : ByteScanner → Prop
  | skip (hmode : s.mode = .text) : Iteration bytes s { s with offset := s.offset + 1 }
  | escape (hbyte : bytes[s.offset]? = some (byte esc)) : Iteration bytes s
      { s with offset := s.offset + 1, mode := .escape, escapeStart := s.offset }
  | inside (hmode : s.mode ≠ .text) (digitPending codes current) :
    Iteration bytes s (s.inside digitPending codes current)
  | complete (hbyte : bytes[s.offset]? = some (byte 'm')) (content) :
    Iteration bytes s (s.complete content)
  | rescan (hmode : s.mode ≠ .text) : Iteration bytes s s.rescan

variable {bytes : Bytes} {t : Text} {s s' s'' : ByteScanner}

theorem Runs.trans {k l : Nat} (hfirst : Runs bytes s s' k) (hsecond : Runs bytes s' s'' l) :
    Runs bytes s s'' (k + l) := by
  induction hfirst with
  | refl => rwa [Nat.zero_add]
  | @step _ _ _ k h _ ih =>
    rw [Nat.add_right_comm]
    exact .step h (ih hsecond)

theorem next?_of_over (hoffset : s.offset = bytes.length) : s.next? bytes = none := by
  rw [next?, hoffset, List.getElem?_length, Option.bind_none]

/-- The loop has one end. -/
theorem Runs.eq_of_over {k l : Nat} (hfirst : Runs bytes s s' k) (hsecond : Runs bytes s s'' l)
    (hover : s'.next? bytes = none) (hover' : s''.next? bytes = none) : s' = s'' := by
  induction hfirst generalizing l with
  | refl =>
    cases hsecond with
    | refl => rfl
    | step h => cases hover.symm.trans h
  | step h _ ih =>
    cases hsecond with
    | refl => cases hover'.symm.trans h
    | step h' hrest =>
      cases h.symm.trans h'
      exact ih hrest hover

theorem iteration_of_next? (h : s.next? bytes = some s') :
    s.offset < bytes.length ∧ Iteration bytes s s' := by
  obtain ⟨b, hb, hread⟩ := Option.bind_eq_some_iff.1 h
  refine ⟨(List.getElem?_eq_some_iff.1 hb).1, ?_⟩
  unfold read? at hread
  split at hread
  · next hmode =>
    cases hread
    unfold onText
    split
    · next hesc => exact .escape (hesc ▸ hb)
    · exact .skip hmode
  · next hmode =>
    have hmode : s.mode ≠ .text := hmode ▸ Mode.noConfusion
    cases hread
    split
    · exact .inside hmode _ _ _
    · exact .rescan hmode
  · next digitPending hmode =>
    have hmode : s.mode ≠ .text := hmode ▸ Mode.noConfusion
    split_ifs at hread with hdigit hsemicolon hm
    · cases hread
      exact .inside hmode _ _ _
    · cases hread
      exact .inside hmode _ _ _
    · obtain ⟨content, -, rfl⟩ := Option.map_eq_some_iff.1 hread
      exact .complete (hm.1 ▸ hb) content
    · cases hread
      exact .rescan hmode

/-- The offsets are in order and in range, and the ends of both slices are between characters. -/
structure Placed (t : Text) (s : ByteScanner) : Prop where
  offset_le : s.offset ≤ (encode t).length
  literalStart_le : s.literalStart ≤ s.offset
  isBoundary_literalStart : IsBoundary t s.literalStart
  literalStart_le_escapeStart : s.mode ≠ .text → s.literalStart ≤ s.escapeStart
  escapeStart_le : s.mode ≠ .text → s.escapeStart ≤ s.offset
  isBoundary_escapeStart : s.mode ≠ .text → IsBoundary t s.escapeStart

/-- Outside of a sequence the offset of the escape may be any. -/
theorem Placed.of_text (hmode : s.mode = .text) (hoffset : s.offset ≤ (encode t).length)
    (hle : s.literalStart ≤ s.offset) (hliteral : IsBoundary t s.literalStart) : Placed t s :=
  ⟨hoffset, hle, hliteral, fun h => absurd hmode h, fun h => absurd hmode h,
    fun h => absurd hmode h⟩

theorem placed_start (t : Text) : Placed t {} :=
  .of_text rfl (Nat.zero_le _) (Nat.le_refl 0) (.zero t)

/-- Both characters at which an offset is stored are single bytes, so it stands beside them. -/
theorem placed_next (hs : Placed t s) (h : s.next? (encode t) = some s') : Placed t s' := by
  obtain ⟨hoffset, hiteration⟩ := iteration_of_next? h
  have hliteral := Nat.le_succ_of_le hs.literalStart_le
  cases hiteration with
  | skip hmode => exact .of_text hmode hoffset hliteral hs.isBoundary_literalStart
  | escape hbyte =>
    have hhere := (isBoundary_of_ascii hbyte (by decide)).1
    exact ⟨hoffset, hliteral, hs.isBoundary_literalStart, fun _ => hs.literalStart_le,
      fun _ => Nat.le_succ _, fun _ => hhere⟩
  | inside hmode =>
    exact ⟨hoffset, hliteral, hs.isBoundary_literalStart,
      fun _ => hs.literalStart_le_escapeStart hmode,
      fun _ => Nat.le_succ_of_le (hs.escapeStart_le hmode),
      fun _ => hs.isBoundary_escapeStart hmode⟩
  | complete hbyte content =>
    have hnext := (isBoundary_of_ascii hbyte (by decide)).2
    exact .of_text rfl hoffset (Nat.le_refl _) hnext
  | rescan => exact .of_text rfl hs.offset_le hs.literalStart_le hs.isBoundary_literalStart

theorem Runs.placed {k : Nat} (hrun : Runs (encode t) s s' k) (hs : Placed t s) :
    Placed t s' := by
  induction hrun with
  | refl => exact hs
  | step h _ ih => exact ih (placed_next hs h)

namespace Placed

/-- The text in front of a sequence can be cut out. -/
theorem exists_slice_escape (hs : Placed t s) (hmode : s.mode ≠ .text) :
    ∃ content, slice? (encode t) s.literalStart s.escapeStart = some content :=
  exists_slice? hs.isBoundary_literalStart (hs.isBoundary_escapeStart hmode)
    (hs.literalStart_le_escapeStart hmode)

/-- The rest of the text can be cut out. -/
theorem exists_slice_rest (hs : Placed t s) :
    ∃ content, slice? (encode t) s.literalStart (encode t).length = some content :=
  exists_slice? hs.isBoundary_literalStart (.length t) (hs.literalStart_le.trans hs.offset_le)

/-- Where there is a byte, the loop goes on. -/
theorem exists_next (hs : Placed t s) (hoffset : s.offset < (encode t).length) :
    ∃ s', s.next? (encode t) = some s' := by
  rw [← Option.isSome_iff_exists, next?, List.getElem?_eq_getElem hoffset, Option.bind_some]
  unfold read?
  split
  · rfl
  · rfl
  · next digitPending hmode =>
    obtain ⟨content, hslice⟩ := hs.exists_slice_escape (hmode ▸ Mode.noConfusion)
    rw [hslice, Option.map_some]
    split_ifs <;> rfl

end Placed

/-- An iteration moves by one byte, or it goes from a sequence to the text around it. -/
theorem offset_of_next? (h : s.next? bytes = some s') :
    s'.offset = s.offset + 1 ∨ s'.offset = s.offset ∧ s.mode ≠ .text ∧ s'.mode = .text := by
  cases (iteration_of_next? h).2 with
  | skip => exact .inl rfl
  | escape => exact .inl rfl
  | inside => exact .inl rfl
  | complete => exact .inl rfl
  | rescan hmode => exact .inr ⟨rfl, hmode, rfl⟩

/-- After an iteration in place comes one that moves. -/
theorem Placed.exists_next_of_offset_eq (hs : Placed t s) (h : s.next? (encode t) = some s')
    (hstay : s'.offset = s.offset) :
    ∃ s'', s'.next? (encode t) = some s'' ∧ s''.offset = s.offset + 1 := by
  have hoffset := (iteration_of_next? h).1
  obtain ⟨s'', hnext⟩ := (placed_next hs h).exists_next (hstay ▸ hoffset)
  refine ⟨s'', hnext, ?_⟩
  rcases offset_of_next? h with hmove | ⟨-, -, htext⟩
  · omega
  · rcases offset_of_next? hnext with hmove | ⟨-, hmode, -⟩
    · rw [hmove, hstay]
    · exact absurd htext hmode

/-- The iteration in place that a sequence costs if it is broken off. -/
def owed (s : ByteScanner) : Nat := if s.mode = .text then 0 else 1

/-- Each byte is read at most twice. -/
theorem Runs.length_add_owed_le {k : Nat} (hrun : Runs bytes s s' k) :
    k + s'.owed + 2 * s.offset ≤ s.owed + 2 * s'.offset := by
  induction hrun with
  | refl => omega
  | @step s s' s'' k h _ ih =>
    have hle (s : ByteScanner) : s.owed ≤ 1 := by
      unfold owed
      split <;> omega
    have howed := hle s'
    rcases offset_of_next? h with hmove | ⟨hstay, hmode, htext⟩
    · omega
    · -- the offset stays, but the sequence broken off owes no more
      have hpaid : s.owed = 1 := if_neg hmode
      have hfree : s'.owed = 0 := if_pos htext
      omega

end ByteScanner
end Sgr
end ThemedPrompt
