import ThemedPrompt.Proofs.Sgr.Decode

/-! # What stripping leaves

A text may be cut in front of any escape, since no sequence reaches across one. Its sequences are
taken out at once, and what stood on both sides of one becomes adjacent. So what is left holds a
sequence exactly if the text has one that is interrupted: its start stands directly in front of a
sequence, and its end is what is left behind that one.
-/
namespace ThemedPrompt
namespace Sgr
open Text

/-- A sequence starts with its only escape. -/
theorem IsSequence.exists_cons {t : Text} (h : IsSequence t) : ∃ u, t = esc :: u ∧ esc ∉ u := by
  obtain ⟨numbers, hne, hall, rfl⟩ := isSequence_iff.1 h
  obtain ⟨n, ns, rfl⟩ := List.exists_cons_of_ne_nil hne
  have hnumber : ∀ k ∈ n :: ns, esc ∉ k :=
    fun k hk hmem => ne_of_isDigit ((hall k hk).2 esc hmem) rfl rfl
  refine ⟨_, rfl, ?_⟩
  rw [join_semicolon]
  intro hmem
  rcases List.mem_cons.1 hmem with h | hmem
  · exact absurd h (by decide)
  · rcases List.mem_append.1 hmem with hmem | hmem
    · rcases List.mem_append.1 hmem with hmem | hmem
      · exact hnumber n List.mem_cons_self hmem
      · obtain ⟨k, hk, hmem⟩ := List.mem_flatMap.1 hmem
        rcases List.mem_cons.1 hmem with h | hmem
        · exact absurd h (by decide)
        · exact hnumber k (List.mem_cons_of_mem n hk) hmem
    · exact absurd (List.mem_singleton.1 hmem) (by decide)

/-- Whether a text starts with a sequence is settled before the next escape. -/
theorem sequence?_append_esc (c : Char) (a u : Text) : sequence? (c :: a ++ esc :: u) =
    (sequence? (c :: a)).map fun (codes, rest) => (codes, rest ++ esc :: u) := by
  cases hread : sequence? (c :: a) with
  | some read =>
    obtain ⟨found, hfound, hsplit, hcodes⟩ := sequence?_eq_some_iff.1 hread
    refine sequence?_eq_some_iff.2 ⟨found, hfound, ?_, hcodes⟩
    rw [hsplit, List.append_assoc]
  | none =>
    have hno (found rest : Text) (hfound : IsSequence found) : c :: a ≠ found ++ rest := by
      intro h
      rw [h, sequence?_append hfound] at hread
      cases hread
    refine Option.eq_none_iff_forall_not_mem.2 ?_
    rintro ⟨codes, rest⟩ hmem
    obtain ⟨found, hfound, hsplit, -⟩ := sequence?_eq_some_iff.1 hmem
    rcases List.append_eq_append_iff.1 hsplit with ⟨across, rfl, hrest⟩ | ⟨left, hleft, -⟩
    · -- the sequence would have the escape behind its first character
      cases across with
      | nil => exact hno (c :: a ++ []) [] hfound (by simp)
      | cons d ds =>
        obtain ⟨v, hv, hnotMem⟩ := hfound.exists_cons
        have htail := (List.cons.inj hv).2
        have hd := (List.cons.inj hrest).1
        exact hnotMem (htail ▸ by simp [hd])
    · exact hno found left hfound hleft

theorem pieces_append_esc (a u : Text) : pieces (a ++ esc :: u) = pieces a ++ pieces (esc :: u) := by
  fun_induction pieces a with
  | case1 => rfl
  | case2 c cs codes rest hread ih =>
    have happend := sequence?_append_esc c cs u
    rw [hread] at happend
    rw [pieces_of_sequence? happend, ih]
    rfl
  | case3 c cs hread ih =>
    have happend := sequence?_append_esc c cs u
    rw [hread, List.cons_append] at happend
    rw [List.cons_append, pieces_cons_of_no_sequence happend, ih]
    rfl

theorem strip_append_esc (a u : Text) : strip (a ++ esc :: u) = strip a ++ strip (esc :: u) := by
  rw [strip, pieces_append_esc, List.filterMap_append]
  rfl

theorem strip_sequence_append {found : Text} (hfound : IsSequence found) (t : Text) :
    strip (found ++ t) = strip t := by
  rw [strip, pieces_of_sequence? (sequence?_append hfound t)]
  rfl

theorem pieces_of_hasSequence_eq_false {t : Text} (h : hasSequence t = false) :
    pieces t = t.map .literal := by
  fun_induction pieces t with
  | case1 => rfl
  | case2 c cs codes rest hread _ =>
    rw [hasSequence, pieces_of_sequence? hread] at h
    cases h
  | case3 c cs hread ih =>
    rw [hasSequence, pieces_cons_of_no_sequence hread] at h
    rw [ih h]
    rfl

theorem strip_of_hasSequence_eq_false {t : Text} (h : hasSequence t = false) : strip t = t := by
  rw [strip, pieces_of_hasSequence_eq_false h]
  exact Cut.filterMap_pieces (.last t)

theorem length_strip_lt {t : Text} (h : hasSequence t = true) :
    (strip t).length < t.length := by
  fun_induction pieces t with
  | case1 => simp [hasSequence, pieces] at h
  | case2 c cs codes rest hread ih =>
    have hshorter := length_of_sequence? hread
    obtain ⟨found, hfound, hsplit, -⟩ := sequence?_eq_some_iff.1 hread
    rw [hsplit] at hshorter ⊢
    rw [strip_sequence_append hfound]
    cases hrest : hasSequence rest with
    | false => rwa [strip_of_hasSequence_eq_false hrest]
    | true => exact (ih hrest).trans hshorter
  | case3 c cs hread ih =>
    have hpieces := pieces_cons_of_no_sequence hread
    rw [hasSequence, hpieces] at h
    rw [strip, hpieces]
    exact Nat.succ_lt_succ (ih h)

theorem strip_eq_self_iff {t : Text} : strip t = t ↔ hasSequence t = false := by
  refine ⟨?_, strip_of_hasSequence_eq_false⟩
  intro hself
  rw [← Bool.not_eq_true]
  intro h
  exact absurd (length_strip_lt h) (by rw [hself]; exact Nat.lt_irrefl _)

/-- The start of a sequence, without its end, is literal text. -/
theorem strip_start {start finish : Text} (hsequence : IsSequence (start ++ finish))
    (hfinish : finish ≠ []) : strip start = start := by
  refine strip_of_hasSequence_eq_false ?_
  rw [← Bool.not_eq_true, hasSequence_iff]
  rintro ⟨before, found, after, rfl, hfound⟩
  cases before with
  | nil =>
    have hsplit : [] ++ (found ++ after) ++ finish ++ [] = found ++ (after ++ finish) := by simp
    have hrest := (hsequence.unique hfound hsplit).2
    exact hfinish (List.append_eq_nil_iff.1 hrest.symm).2
  | cons c before =>
    -- the escape of what is found would be a second one
    obtain ⟨v, hv, hnotMem⟩ := hsequence.exists_cons
    obtain ⟨w, rfl, -⟩ := hfound.exists_cons
    exact hnotMem ((List.cons.inj hv).2 ▸ by simp)

theorem LeftmostCut.strip_eq {t : Text} {cut : Cut} (h : LeftmostCut t cut) :
    strip t = cut.literals := by
  obtain ⟨other, hother, hpieces⟩ := exists_leftmostCut t
  rw [strip, ← hpieces, Cut.filterMap_pieces, h.unique hother]

theorem IsSequence.ne_nil {t : Text} (h : IsSequence t) : t ≠ [] := by
  obtain ⟨u, rfl, -⟩ := h.exists_cons
  exact List.cons_ne_nil esc u

/-- The stretch in front of the leftmost sequence holds none. -/
theorem FirstSequence.not_isSequence {t stretch inner after b found left : Text}
    (h : FirstSequence t stretch inner after) (hstretch : stretch = b ++ (found ++ left)) :
    ¬ IsSequence found := by
  intro hfound
  have hsplit : t = b ++ (found ++ (left ++ (inner ++ after))) := by
    rw [h.split, hstretch, List.append_assoc, List.append_assoc]
  have hlength := h.leftmost _ _ _ hsplit hfound
  have hpos := List.length_pos_iff.2 hfound.ne_nil
  rw [hstretch, List.length_append, List.length_append] at hlength
  omega

/-- A sequence of a text is interrupted by another one if its start stands directly in front of
that one and its end at the front of what is left behind it. -/
def Interrupted (t : Text) : Prop :=
  ∃ before start inner after finish rest,
    t = before ++ (start ++ (inner ++ after)) ∧ IsSequence inner ∧ start ≠ [] ∧ finish ≠ [] ∧
      strip after = finish ++ rest ∧ IsSequence (start ++ finish)

theorem Interrupted.append {t : Text} (h : Interrupted t) (u : Text) : Interrupted (u ++ t) := by
  obtain ⟨before, start, inner, after, finish, rest, rfl, h⟩ := h
  exact ⟨u ++ before, start, inner, after, finish, rest, (List.append_assoc ..).symm, h⟩

/-- A sequence that is left was in no stretch, so it reaches across a sequence taken out. -/
theorem interrupted_of_strip_eq {t b found a : Text} (h : strip t = b ++ (found ++ a))
    (hfound : IsSequence found) : Interrupted t := by
  obtain ⟨cut, hcut, -⟩ := exists_leftmostCut t
  induction hcut generalizing b with
  | @last t hnone =>
    rw [(LeftmostCut.last hnone).strip_eq] at h
    exact absurd hfound (hnone _ _ _ h)
  | @before t stretch inner after rest hfirst hrest ih =>
    have hlater {b : Text} (h : strip after = b ++ (found ++ a)) : Interrupted t := by
      rw [hfirst.split, ← List.append_assoc]
      exact (ih h).append _
    rw [(LeftmostCut.before hfirst hrest).strip_eq, Cut.literals, ← hrest.strip_eq] at h
    -- what is left begins behind the stretch, or in it
    rcases List.append_eq_append_iff.1 h with ⟨behind, -, hleft⟩ | ⟨start, hstretch, hleft⟩
    · exact hlater hleft
    · rcases List.append_eq_append_iff.1 hleft with ⟨left, hstart, -⟩ | ⟨finish, hsplit, hfinish⟩
      · rw [hstart] at hstretch
        exact absurd hfound (hfirst.not_isSequence hstretch)
      · by_cases hstart : start = []
        · rw [hstart, List.nil_append] at hsplit
          exact hlater (b := []) (hsplit ▸ hfinish)
        · by_cases hend : finish = []
          · rw [hend, List.append_nil] at hsplit
            rw [← hsplit, ← List.append_nil found] at hstretch
            exact absurd hfound (hfirst.not_isSequence hstretch)
          · refine ⟨b, start, inner, after, finish, a, ?_, hfirst.isSequence, hstart, hend, hfinish,
              hsplit ▸ hfound⟩
            rw [hfirst.split, hstretch, List.append_assoc]

/-- The two parts of an interrupted sequence are adjacent in what is left. -/
theorem strip_of_interrupted {before start inner after finish : Text} (hinner : IsSequence inner)
    (hstart : start ≠ []) (hfinish : finish ≠ []) (hsequence : IsSequence (start ++ finish)) :
    strip (before ++ (start ++ (inner ++ after))) = strip before ++ (start ++ strip after) := by
  obtain ⟨c, u, rfl⟩ := List.exists_cons_of_ne_nil hstart
  obtain ⟨v, hv, -⟩ := hsequence.exists_cons
  obtain ⟨w, hw, -⟩ := hinner.exists_cons
  obtain ⟨rfl, -⟩ := List.cons.inj hv
  have hbehind := calc strip (esc :: u ++ (inner ++ after))
    _ = strip (esc :: u) ++ strip (inner ++ after) := by
      rw [hw]
      exact strip_append_esc (esc :: u) (w ++ after)
    _ = esc :: u ++ strip after := by
      rw [strip_start hsequence hfinish, strip_sequence_append hinner]
  rw [← hbehind]
  exact strip_append_esc before _

/-- Stripping leaves a sequence exactly if one is interrupted, and only then stripping again
changes anything. -/
theorem hasSequence_strip_iff (t : Text) : (hasSequence (strip t) = true ↔ Interrupted t) ∧
    (strip (strip t) = strip t ↔ ¬ Interrupted t) := by
  have hiff : hasSequence (strip t) = true ↔ Interrupted t := by
    rw [hasSequence_iff]
    constructor
    · rintro ⟨b, found, a, h, hfound⟩
      exact interrupted_of_strip_eq h hfound
    · rintro ⟨before, start, inner, after, finish, rest, rfl, hinner, hstart, hfinish, hrest, hs⟩
      refine ⟨strip before, start ++ finish, rest, ?_, hs⟩
      rw [strip_of_interrupted hinner hstart hfinish hs, hrest, List.append_assoc]
  refine ⟨hiff, ?_⟩
  rw [strip_eq_self_iff, ← hiff, Bool.not_eq_true]

/-- The middle one of these three parts is taken out, and the outer two become a sequence. -/
theorem hasSequence_strip_nested :
    hasSequence (strip "\x1b[\x1b[0m1m".toList) = true ∧
      strip (strip "\x1b[\x1b[0m1m".toList) ≠ strip "\x1b[\x1b[0m1m".toList := by
  decide +kernel

end Sgr
end ThemedPrompt
