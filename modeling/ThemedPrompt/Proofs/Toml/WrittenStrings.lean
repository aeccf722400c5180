import Mathlib.Tactic.IntervalCases
import ThemedPrompt.Proofs.Text.Cutting
import ThemedPrompt.Toml.Token
import ThemedPrompt.Toml.Writer

/-! # Written strings of TOML

Each of the five forms is read as the text that it was chosen for. In the forms of several lines at
most two quotes stand in a row, so that three of them end the string; up to two more in front of
these still belong to it.
-/
namespace ThemedPrompt
namespace Toml
open Text

/-- The codes of the characters that are escaped by number. -/
theorem hexNumber?_escape {n : Nat} (hn : n < 0x80) :
    hexNumber? ['0', '0', hexDigitUpper (n / 16), hexDigitUpper (n % 16)] = some n := by
  revert n
  decide

theorem escape?_simple {e c : Char} (hwidth : escapeWidth? e = none) (hc : simpleEscape? e = some c)
    (t : Text) : escape? (e :: t) = some (c, t) := by
  rw [escape?, hwidth]
  dsimp only
  rw [hc]
  rfl

theorem escape?_number {c : Char} (hc : c.toNat < 0x80) (t : Text) :
    escape? ('u' :: '0' :: '0' :: hexDigitUpper (c.toNat / 16) :: hexDigitUpper (c.toNat % 16) :: t) =
      some (c, t) := by
  have hwidth : escapeWidth? 'u' = some 4 := rfl
  rw [escape?, hwidth]
  dsimp only
  rw [if_neg (by simp), List.take_succ_cons, List.take_succ_cons, List.take_succ_cons,
    List.take_succ_cons, List.take_zero, hexNumber?_escape hc, Option.bind_some, scalar?,
    if_pos (.inl (by omega)), Char.ofNat_toNat]
  rfl

/-- What stands for a character inside of quotes. -/
inductive Inside (c : Char) : Text → Prop
  | plain (hplain : isPlain c = true) (hbackslash : c ≠ '\\') : Inside c [c]
  | escaped {e : Char} {more : Text} (hread : ∀ t, escape? (e :: (more ++ t)) = some (c, t))
    (hspace : isSpace e = false) (hlf : e ≠ '\n') (hcr : e ≠ '\r') : Inside c ('\\' :: e :: more)

theorem isPlain_of_isControl_eq_false {c : Char} (h : isControl c = false) :
    isPlain c = true ∨ c = '\n' := by
  simp only [isControl, Bool.or_eq_false_iff, Bool.and_eq_false_iff, decide_eq_false_iff_not,
    ne_eq, decide_not, Bool.not_eq_false', decide_eq_true_eq] at h
  simp only [isPlain, Bool.or_eq_true, Bool.and_eq_true, decide_eq_true_eq, ne_eq, decide_not,
    Bool.not_eq_true', decide_eq_false_iff_not]
  obtain ⟨(hlow | htab) | hlf, hdelete⟩ := h
  · exact .inl (.inr ⟨by omega, hdelete⟩)
  · exact .inl (.inl htab)
  · exact .inr hlf

theorem toNat_lt_of_isControl {c : Char} (h : isControl c = true) : c.toNat < 0x80 := by
  simp only [isControl, Bool.or_eq_true, Bool.and_eq_true, decide_eq_true_eq] at h
  omega

theorem inside_escapeChar (c : Char) : Inside c (escapeChar c) := by
  unfold escapeChar
  split
  case h_7 _ _ hlf _ _ hbackslash =>
    split
    · next hcontrol =>
      exact .escaped (fun t => escape?_number (toNat_lt_of_isControl hcontrol) t) rfl (by decide)
        (by decide)
    · next hcontrol =>
      rcases isPlain_of_isControl_eq_false (eq_false_of_ne_true hcontrol) with hplain | rfl
      · exact .plain hplain hbackslash
      · exact absurd rfl hlf
  all_goals exact .escaped (fun t => escape?_simple rfl rfl t) rfl (by decide) (by decide)

section
variable (lines : Bool) (allowed left : Nat) (t : Text)

theorem escapeBasic_quote_zero : escapeBasic lines allowed 0 ('"' :: t) =
    '\\' :: '"' :: escapeBasic lines allowed allowed t := by
  rw [escapeBasic, if_pos rfl]

theorem escapeBasic_quote_succ : escapeBasic lines allowed (left + 1) ('"' :: t) =
    '"' :: escapeBasic lines allowed left t := by
  rw [escapeBasic, if_pos rfl]

theorem escapeBasic_of_ne {c : Char} (hc : c ≠ '"') : escapeBasic lines allowed left (c :: t) =
    (if lines && c = '\n' then ['\n'] else escapeChar c) ++ escapeBasic lines allowed allowed t := by
  rw [escapeBasic.eq_def]
  dsimp only
  rw [if_neg hc]
  split <;> rfl

end

theorem basic?_plain {c : Char} (hquote : c ≠ '"') (hbackslash : c ≠ '\\') (hplain : isPlain c = true)
    (t : Text) : basic? (c :: t) = (basic? t).map fun (s, after) => (c :: s, after) := by
  rw [basic?, if_pos hplain]
  · exact hquote
  · exact hbackslash

theorem basic?_escaped {c : Char} {t rest : Text} (h : escape? t = some (c, rest)) :
    basic? ('\\' :: t) = (basic? rest).map fun (s, after) => (c :: s, after) := by
  rw [basic?]
  split
  · next c' rest' h' =>
    rw [h] at h'
    cases h'
    rfl
  · next hnone => simp [h] at hnone

/-- A string on one line. -/
theorem basic?_escapeBasic (t rest : Text) :
    basic? (escapeBasic false 0 0 t ++ '"' :: rest) = some (t, rest) := by
  induction t with
  | nil => rw [escapeBasic, List.nil_append, basic?]
  | cons c t ih =>
    by_cases hquote : c = '"'
    · subst hquote
      rw [escapeBasic_quote_zero, List.cons_append, List.cons_append,
        basic?_escaped (escape?_simple rfl rfl _), ih]
      rfl
    · rw [escapeBasic_of_ne false 0 0 t hquote, if_neg (by simp), List.append_assoc]
      have hinside := inside_escapeChar c
      generalize escapeChar c = written at hinside ⊢
      cases hinside with
      | plain hplain hbackslash =>
        rw [List.singleton_append, basic?_plain hquote hbackslash hplain, ih]
        rfl
      | escaped hread _ _ _ =>
        rw [List.cons_append, List.cons_append, basic?_escaped (hread _), ih]
        rfl

theorem literal?_append {t : Text} (hplain : ∀ c ∈ t, isPlain c = true) (hquote : '\'' ∉ t)
    (rest : Text) : literal? (t ++ '\'' :: rest) = some (t, rest) := by
  induction t with
  | nil => rw [List.nil_append, literal?]
  | cons c t ih =>
    obtain ⟨hc, ht⟩ := List.forall_mem_cons.1 hplain
    rw [List.cons_append, literal?, if_pos hc, ih ht (List.not_mem_of_not_mem_cons hquote)]
    · rfl
    · exact (List.ne_of_not_mem_cons hquote).symm

/-- A text starts with some quotes and goes on, if it does, with another character. -/
theorem quotes_cases (q : Char) (t : Text) : (∃ m, t = List.replicate m q) ∨
    ∃ m c more, c ≠ q ∧ t = List.replicate m q ++ c :: more := by
  induction t with
  | nil => exact .inl ⟨0, rfl⟩
  | cons c t ih =>
    by_cases hc : c = q
    · subst hc
      rcases ih with ⟨m, rfl⟩ | ⟨m, d, more, hd, rfl⟩
      · exact .inl ⟨m + 1, rfl⟩
      · exact .inr ⟨m + 1, d, more, hd, rfl⟩
    · exact .inr ⟨0, c, t, hc, rfl⟩

section
variable {q : Char} {m : Nat} (hm : m ≤ 2)
include hm

/-- Up to two quotes in front of the closing ones belong to the string. -/
theorem closing?_replicate {rest : Text} (hrest : ∀ c ∈ rest.head?, c ≠ q) :
    closing? q (List.replicate m q ++ q :: q :: q :: rest) = some (List.replicate m q, rest) := by
  have hstop : rest.takeWhile (· = q) = [] := takeWhile_of_head (by simpa using hrest)
  have hstop' : (rest.take 1).takeWhile (· = q) = [] := takeWhile_of_head (by cases rest <;> simp_all)
  have hstop'' : (rest.take 2).takeWhile (· = q) = [] := takeWhile_of_head (by cases rest <;> simp_all)
  interval_cases m
  · simp [closing?, hstop'']
  · simp [closing?, hstop']
  · simp [closing?]

theorem closing?_of_broken {c : Char} (hc : c ≠ q) (t : Text) :
    closing? q (List.replicate m q ++ c :: t) = none := by
  unfold closing?
  split
  · next a b d rest heq =>
    refine if_neg ?_
    rintro ⟨rfl, rfl, rfl⟩
    interval_cases m <;> simp_all
  · rfl

end

theorem literalLines?_closing {t more rest : Text} (h : closing? '\'' t = some (more, rest)) :
    literalLines? t = some (more, rest) := by
  rw [literalLines?.eq_def, h]

theorem literalLines?_char {c : Char} {t : Text} (hclose : closing? '\'' (c :: t) = none)
    (hc : isPlain c = true ∨ c = '\n') :
    literalLines? (c :: t) = (literalLines? t).map fun (s, after) => (c :: s, after) := by
  have hcr : c ≠ '\r' := by
    rintro rfl
    rcases hc with hc | hc <;> exact absurd hc (by decide)
  rw [literalLines?.eq_def, hclose]
  dsimp only
  split
  · next heq => cases heq
  · next heq => exact absurd (List.cons.inj heq).1 hcr
  · next heq =>
    cases heq
    rw [if_pos (by simpa using hc)]

theorem longestStretch_mono (q : Char) {n m : Nat} (h : n ≤ m) (t : Text) :
    longestStretch q n t ≤ longestStretch q m t := by
  induction t generalizing n m with
  | nil => exact h
  | cons c t ih =>
    rw [longestStretch, longestStretch]
    split
    · exact ih (Nat.succ_le_succ h)
    · omega

theorem longestStretch_le_cons (q c : Char) (t : Text) :
    longestStretch q 0 t ≤ longestStretch q 0 (c :: t) := by
  rw [longestStretch]
  split
  · exact longestStretch_mono q (Nat.zero_le _) t
  · exact Nat.le_max_right _ _

theorem le_longestStretch (q : Char) (n : Nat) (t : Text) : n ≤ longestStretch q n t := by
  induction t generalizing n with
  | nil => exact Nat.le_refl n
  | cons c t ih =>
    rw [longestStretch]
    split
    · exact Nat.le_trans (Nat.le_succ n) (ih (n + 1))
    · exact Nat.le_max_left _ _

theorem le_longestStretch_replicate (q : Char) (m n : Nat) (t : Text) :
    m + n ≤ longestStretch q n (List.replicate m q ++ t) := by
  induction m generalizing n with
  | zero =>
    rw [Nat.zero_add]
    exact le_longestStretch q n t
  | succ m ih =>
    rw [List.replicate_succ, List.cons_append, longestStretch, if_pos rfl]
    exact Nat.le_trans (by omega) (ih (n + 1))

theorem notMem_of_longestStretch {q : Char} {t : Text} (h : longestStretch q 0 t = 0) : q ∉ t := by
  induction t with
  | nil => exact List.not_mem_nil
  | cons c t ih =>
    have ht : longestStretch q 0 t = 0 :=
      Nat.le_zero.1 (Nat.le_trans (longestStretch_le_cons q c t) (Nat.le_of_eq h))
    rintro hmem
    rcases List.mem_cons.1 hmem with rfl | hmem
    · have hone := le_longestStretch_replicate q 1 0 t
      rw [List.replicate_one, List.singleton_append, h] at hone
      exact absurd hone (by decide)
    · exact ih ht hmem

/-- A string of several lines that stands as it is. -/
theorem literalLines?_append {t : Text} (hplain : ∀ c ∈ t, isPlain c = true ∨ c = '\n')
    (hquotes : longestStretch '\'' 0 t ≤ 2) {rest : Text} (hrest : ∀ c ∈ rest.head?, c ≠ '\'') :
    literalLines? (t ++ '\'' :: '\'' :: '\'' :: rest) = some (t, rest) := by
  induction t with
  | nil => exact literalLines?_closing (closing?_replicate (Nat.zero_le 2) hrest)
  | cons c t ih =>
    obtain ⟨hc, ht⟩ := List.forall_mem_cons.1 hplain
    have hread := ih ht (Nat.le_trans (longestStretch_le_cons _ c t) hquotes)
    rcases quotes_cases '\'' (c :: t) with ⟨m, hall⟩ | ⟨m, d, more, hd, hall⟩
    · have hm := le_longestStretch_replicate '\'' m 0 []
      rw [List.append_nil, ← hall] at hm
      rw [hall]
      exact literalLines?_closing (closing?_replicate (by omega) hrest)
    · have hm := le_longestStretch_replicate '\'' m 0 (d :: more)
      rw [← hall] at hm
      have hclose : closing? '\'' (c :: t ++ '\'' :: '\'' :: '\'' :: rest) = none := by
        rw [hall, List.append_assoc]
        exact closing?_of_broken (by omega) hd _
      rw [List.cons_append] at hclose ⊢
      rw [literalLines?_char hclose hc, hread]
      rfl

theorem basicLines?_closing {t more rest : Text} (h : closing? '"' t = some (more, rest)) :
    basicLines? t = some (more, rest) := by
  rw [basicLines?.eq_def, h]

theorem basicLines?_char {c : Char} {t : Text} (hclose : closing? '"' (c :: t) = none)
    (hbackslash : c ≠ '\\') (hc : isPlain c = true ∨ c = '\n') :
    basicLines? (c :: t) = (basicLines? t).map fun (s, after) => (c :: s, after) := by
  have hcr : c ≠ '\r' := by
    rintro rfl
    rcases hc with hc | hc <;> exact absurd hc (by decide)
  rw [basicLines?.eq_def, hclose]
  dsimp only
  split
  · next heq => cases heq
  · next heq => exact absurd (List.cons.inj heq).1 hbackslash
  · next heq => exact absurd (List.cons.inj heq).1 hcr
  · next heq =>
    cases heq
    rw [if_pos (by simpa using hc)]

theorem basicLines?_escaped {c e : Char} {t rest : Text} (hread : escape? (e :: t) = some (c, rest))
    (hspace : isSpace e = false) (hlf : e ≠ '\n') (hcr : e ≠ '\r') :
    basicLines? ('\\' :: e :: t) = (basicLines? rest).map fun (s, after) => (c :: s, after) := by
  have hclose : closing? '"' ('\\' :: e :: t) = none :=
    closing?_of_broken (Nat.zero_le 2) (by decide) (e :: t)
  have hcontinuation : continuation? (e :: t) = none := by
    rw [continuation?, List.dropWhile_cons_of_neg (by simp [hspace]), lineBreak?]
    · rfl
    · exact fun _ h => hlf (List.cons.inj h).1
    · exact fun _ h => hcr (List.cons.inj h).1
  rw [basicLines?.eq_def, hclose]
  dsimp only
  split
  · next heq => cases heq
  · next heq =>
    cases heq
    split
    · next h =>
      rw [hcontinuation] at h
      cases h
    · split
      · next h =>
        rw [hread] at h
        cases h
        rfl
      · next h =>
        rw [hread] at h
        cases h
  · next heq => exact absurd (List.cons.inj heq).1 (by decide)
  · next hbackslash _ heq => exact absurd (List.cons.inj heq).1.symm hbackslash

/-- A written text starts with quotes up to the number that may be left as they are. -/
theorem escapeBasic_quotes (lines : Bool) (allowed left : Nat) (t : Text) :
    (∃ m ≤ left, t = List.replicate m '"' ∧
      escapeBasic lines allowed left t = List.replicate m '"') ∨
    ∃ m ≤ left, ∃ c more, c ≠ '"' ∧
      escapeBasic lines allowed left t = List.replicate m '"' ++ c :: more := by
  induction t generalizing left with
  | nil => exact .inl ⟨0, Nat.zero_le left, rfl, rfl⟩
  | cons c t ih =>
    by_cases hquote : c = '"'
    · subst hquote
      cases left with
      | zero =>
        exact .inr ⟨0, Nat.le_refl 0, '\\', _, by decide, escapeBasic_quote_zero lines allowed t⟩
      | succ left =>
        rw [escapeBasic_quote_succ]
        rcases ih left with ⟨m, hm, rfl, hwritten⟩ | ⟨m, hm, d, more, hd, hwritten⟩
        · exact .inl ⟨m + 1, Nat.succ_le_succ hm, rfl, by rw [hwritten]; rfl⟩
        · exact .inr ⟨m + 1, Nat.succ_le_succ hm, d, more, hd, by rw [hwritten]; rfl⟩
    · rw [escapeBasic_of_ne lines allowed left t hquote]
      split
      · exact .inr ⟨0, Nat.zero_le left, '\n', _, by decide, rfl⟩
      · have hinside := inside_escapeChar c
        generalize escapeChar c = written at hinside ⊢
        cases hinside with
        | plain => exact .inr ⟨0, Nat.zero_le left, c, _, hquote, rfl⟩
        | escaped => exact .inr ⟨0, Nat.zero_le left, '\\', _, by decide, rfl⟩

/-- A string of several lines with escapes, of which `left` more quotes may stand as they are. -/
theorem basicLines?_escapeBasic (t : Text) {left : Nat} (hleft : left ≤ 2) {rest : Text}
    (hrest : ∀ c ∈ rest.head?, c ≠ '"') :
    basicLines? (escapeBasic true 2 left t ++ '"' :: '"' :: '"' :: rest) = some (t, rest) := by
  induction t generalizing left with
  | nil => exact basicLines?_closing (closing?_replicate (Nat.zero_le 2) hrest)
  | cons c t ih =>
    rcases escapeBasic_quotes true 2 left (c :: t) with
      ⟨m, hm, hall, hwritten⟩ | ⟨m, hm, d, more, hd, hwritten⟩
    · rw [hwritten, hall]
      exact basicLines?_closing (closing?_replicate (by omega) hrest)
    · have hclose : closing? '"' (escapeBasic true 2 left (c :: t) ++ '"' :: '"' :: '"' :: rest) = none := by
        rw [hwritten, List.append_assoc]
        exact closing?_of_broken (by omega) hd _
      by_cases hquote : c = '"'
      · subst hquote
        cases left with
        | zero =>
          rw [escapeBasic_quote_zero, List.cons_append, List.cons_append,
            basicLines?_escaped (escape?_simple rfl rfl _) rfl (by decide) (by decide), ih (Nat.le_refl 2)]
          rfl
        | succ left =>
          rw [escapeBasic_quote_succ, List.cons_append] at hclose ⊢
          rw [basicLines?_char hclose (by decide) (.inl rfl), ih (by omega)]
          rfl
      · rw [escapeBasic_of_ne true 2 left t hquote, List.append_assoc] at hclose ⊢
        by_cases hlf : c = '\n'
        · subst hlf
          rw [if_pos (by decide), List.singleton_append] at hclose ⊢
          rw [basicLines?_char hclose (by decide) (.inr rfl), ih (Nat.le_refl 2)]
          rfl
        · have hchar : (if true && c = '\n' then ['\n'] else escapeChar c) = escapeChar c :=
            if_neg (by simpa using hlf)
          have hinside := inside_escapeChar c
          rw [hchar] at hclose ⊢
          generalize escapeChar c = written at hinside hclose ⊢
          cases hinside with
          | plain hplain hbackslash =>
            rw [List.singleton_append] at hclose ⊢
            rw [basicLines?_char hclose hbackslash (.inl hplain), ih (Nat.le_refl 2)]
            rfl
          | escaped hread hspace hlf hcr =>
            rw [List.cons_append, List.cons_append, basicLines?_escaped (hread _) hspace hlf hcr,
              ih (Nat.le_refl 2)]
            rfl

theorem isPlain_of_control {t : Text} (h : (contents t).control = false) :
    ∀ c ∈ t, isPlain c = true ∨ c = '\n' := by
  intro c hc
  refine isPlain_of_isControl_eq_false ?_
  simpa using List.any_eq_false.1 h c hc

theorem of_form_literal {t : Text} (h : (contents t).form = .literal) :
    (∀ c ∈ t, isPlain c = true) ∧ '\'' ∉ t := by
  have hcontents : (contents t).control = false ∧ (contents t).singleQuotes = 0 ∧
      (contents t).newline = false := by
    unfold Contents.form at h
    grind
  obtain ⟨hcontrol, hquotes, hnewline⟩ := hcontents
  refine ⟨fun c hc => (isPlain_of_control hcontrol c hc).resolve_right ?_,
    notMem_of_longestStretch hquotes⟩
  rintro rfl
  rw [contents, List.contains_iff_mem.2 hc] at hnewline
  exact Bool.noConfusion hnewline

theorem of_form_literalLines {t : Text} (h : (contents t).form = .literalLines) :
    (∀ c ∈ t, isPlain c = true ∨ c = '\n') ∧ longestStretch '\'' 0 t ≤ 2 := by
  have hcontents : (contents t).control = false ∧ (contents t).singleQuotes ≤ 2 := by
    unfold Contents.form at h
    grind
  exact ⟨isPlain_of_control hcontents.1, hcontents.2⟩

theorem dropFirstBreak_of_head {t : Text} (h : ∀ c ∈ t.head?, c ≠ '\n' ∧ c ≠ '\r') :
    dropFirstBreak t = t := by
  have hnone : lineBreak? t = none := by
    unfold lineBreak?
    split
    · exact absurd rfl (h '\n' rfl).1
    · exact absurd rfl (h '\r' rfl).2
    · rfl
  rw [dropFirstBreak, hnone]
  rfl

/-- The line break that is written in front of a text is dropped again, and none of its own. -/
theorem dropFirstBreak_append {t written : Text}
    (h : '\n' ∉ t → ∀ c ∈ written.head?, c ≠ '\n' ∧ c ≠ '\r') :
    dropFirstBreak ((if t.contains '\n' then ['\n'] else []) ++ written) = written := by
  by_cases hmem : '\n' ∈ t
  · rw [if_pos (List.contains_iff_mem.2 hmem)]
    rfl
  · rw [if_neg (by simpa using hmem)]
    exact dropFirstBreak_of_head (h hmem)

theorem token?_line {t : Text} (h : ∀ rest, t ≠ '"' :: '"' :: rest) :
    token? ('"' :: t) = (basic? t).map fun (s, after) => (some (.line s), after) := by
  rw [token?]
  exact h

theorem token?_literal {t : Text} (h : ∀ rest, t ≠ '\'' :: '\'' :: rest) :
    token? ('\'' :: t) = (literal? t).map fun (s, after) => (some (.line s), after) := by
  rw [token?]
  exact h

/-- No line break at the front of a text that is escaped is left as it is. -/
theorem head_escapeBasic {t : Text} (h : '\n' ∉ t) (rest : Text) :
    ∀ c ∈ (escapeBasic true 2 2 t ++ '"' :: rest).head?, c ≠ '\n' ∧ c ≠ '\r' := by
  cases t with
  | nil => rintro c ⟨⟩; decide
  | cons c t =>
    by_cases hquote : c = '"'
    · subst hquote
      rw [escapeBasic_quote_succ]
      rintro c ⟨⟩
      decide
    · have hlf : c ≠ '\n' := fun hc => h (List.mem_cons.2 (.inl hc.symm))
      rw [escapeBasic_of_ne true 2 2 t hquote, if_neg (by simpa using hlf)]
      have hinside := inside_escapeChar c
      generalize escapeChar c = written at hinside ⊢
      cases hinside with
      | plain hplain =>
        rintro d ⟨⟩
        refine ⟨hlf, ?_⟩
        rintro rfl
        exact absurd hplain (by decide)
      | escaped =>
        rintro d ⟨⟩
        decide

section
variable {t rest : Text}

theorem token?_basic (t : Text) (hrest : ∀ c ∈ rest.head?, c ≠ '"') :
    token? ('"' :: (escapeBasic false 0 0 t ++ '"' :: rest)) = some (some (.line t), rest) := by
  rw [token?_line, basic?_escapeBasic]
  · rfl
  · intro more h
    rcases escapeBasic_quotes false 0 0 t with ⟨m, hm, -, hwritten⟩ | ⟨m, hm, c, tail, hc, hwritten⟩
    · obtain rfl := Nat.le_zero.1 hm
      rw [hwritten] at h
      exact hrest '"' (by rw [(List.cons.inj h).2]; rfl) rfl
    · obtain rfl := Nat.le_zero.1 hm
      rw [hwritten] at h
      exact hc (List.cons.inj h).1

theorem token?_literalLine (hplain : ∀ c ∈ t, isPlain c = true) (hquote : '\'' ∉ t)
    (hrest : ∀ c ∈ rest.head?, c ≠ '\'') :
    token? ('\'' :: (t ++ '\'' :: rest)) = some (some (.line t), rest) := by
  rw [token?_literal, literal?_append hplain hquote]
  · rfl
  · intro more h
    cases t with
    | nil => exact hrest '\'' (by rw [(List.cons.inj h).2]; rfl) rfl
    | cons c t => exact hquote (List.mem_cons.2 (.inl (List.cons.inj h).1.symm))

theorem token?_basicLines (t : Text) (hrest : ∀ c ∈ rest.head?, c ≠ '"') :
    token? ('"' :: '"' :: '"' :: ((if t.contains '\n' then ['\n'] else []) ++
      (escapeBasic true 2 2 t ++ '"' :: '"' :: '"' :: rest))) = some (some (.lines t), rest) := by
  rw [token?, dropFirstBreak_append fun h => head_escapeBasic h _,
    basicLines?_escapeBasic t (Nat.le_refl 2) hrest]
  rfl

theorem token?_literalLines (hplain : ∀ c ∈ t, isPlain c = true ∨ c = '\n')
    (hquotes : longestStretch '\'' 0 t ≤ 2) (hrest : ∀ c ∈ rest.head?, c ≠ '\'') :
    token? ('\'' :: '\'' :: '\'' :: ((if t.contains '\n' then ['\n'] else []) ++
      (t ++ '\'' :: '\'' :: '\'' :: rest))) = some (some (.lines t), rest) := by
  have hhead : '\n' ∉ t → ∀ c ∈ (t ++ '\'' :: '\'' :: '\'' :: rest).head?, c ≠ '\n' ∧ c ≠ '\r' := by
    intro hlf c hc
    cases t with
    | nil => cases hc; decide
    | cons d t =>
      cases hc
      refine ⟨fun h => hlf (List.mem_cons.2 (.inl h.symm)), ?_⟩
      rintro rfl
      rcases hplain _ List.mem_cons_self with h | h <;> exact absurd h (by decide)
  rw [token?, dropFirstBreak_append hhead, literalLines?_append hplain hquotes hrest]
  rfl

/-- What is quoted is read as itself, whichever form it is written in. -/
theorem token?_quoted (t : Text) (hrest : ∀ c ∈ rest.head?, c ≠ '"' ∧ c ≠ '\'') :
    token? (quoted t ++ rest) = some (some (.line t), rest) ∨
      token? (quoted t ++ rest) = some (some (.lines t), rest) := by
  unfold quoted
  dsimp only
  split
  · left
    rw [List.cons_append, List.append_assoc]
    exact token?_basic t fun c hc => (hrest c hc).1
  · next hform =>
    obtain ⟨hplain, hquote⟩ := of_form_literal hform
    left
    rw [List.cons_append, List.append_assoc]
    exact token?_literalLine hplain hquote fun c hc => (hrest c hc).2
  · right
    rw [List.append_assoc, List.append_assoc, List.append_assoc]
    exact token?_basicLines t fun c hc => (hrest c hc).1
  · next hform =>
    obtain ⟨hplain, hquotes⟩ := of_form_literalLines hform
    right
    rw [List.append_assoc, List.append_assoc, List.append_assoc]
    exact token?_literalLines hplain hquotes fun c hc => (hrest c hc).2

end

end Toml
end ThemedPrompt
