import ThemedPrompt.Proofs.Sgr.Leftmost
import ThemedPrompt.Sgr.Run

/-! # The scanner and the pieces of a text

What a scanner will have found when the rest of a text is read depends on the pieces of the text
that it has kept aside with that rest behind. No step changes this outcome, whatever the scanner
has kept and whatever comes next.
-/
namespace ThemedPrompt
namespace Sgr
open Text

theorem pieces_cons_of_no_sequence {c : Char} {t : Text} (hread : sequence? (c :: t) = none) :
    pieces (c :: t) = .literal c :: pieces t := by
  rw [pieces]
  split
  · next h => cases hread.symm.trans h
  · rfl

theorem pieces_cons_of_ne_esc {c : Char} (hc : c ≠ esc) (t : Text) :
    pieces (c :: t) = .literal c :: pieces t := by
  refine pieces_cons_of_no_sequence ?_
  unfold sequence?
  split
  · next h => exact absurd (List.cons.inj h).1 hc
  · rfl

theorem pieces_append_of_notMem_esc {a : Text} (ha : esc ∉ a) (t : Text) :
    pieces (a ++ t) = a.map .literal ++ pieces t := by
  induction a with
  | nil => rfl
  | cons c cs ih =>
    have hc : c ≠ esc := (List.ne_of_not_mem_cons ha).symm
    rw [List.cons_append, pieces_cons_of_ne_esc hc, ih (List.not_mem_of_not_mem_cons ha)]
    rfl

/-- An escape that starts no sequence is literal text, up to the next one. -/
theorem pieces_of_broken {a t : Text} (ha : esc ∉ a) (hread : sequence? (esc :: (a ++ t)) = none) :
    pieces (esc :: (a ++ t)) = (esc :: a).map .literal ++ pieces t := by
  rw [pieces_cons_of_no_sequence hread, pieces_append_of_notMem_esc ha]
  rfl

theorem pieces_of_sequence? {t rest : Text} {codes : List Nat}
    (hread : sequence? t = some (codes, rest)) : pieces t = .codes codes :: pieces rest := by
  cases t with
  | nil => cases hread
  | cons c cs =>
    rw [pieces]
    split
    · next h =>
      cases hread.symm.trans h
      rfl
    · next h => cases hread.symm.trans h

/-- The run of a stretch of text; an empty one gives none. -/
def runOf (s : Style) (t : Text) : List Run := if t = [] then [] else [⟨t, s⟩]

/-- The runs of pieces, after literal text in reverse. -/
def runsFrom (s : Style) (literal : Text) : List Piece → List Run
  | [] => runOf s literal.reverse
  | .literal c :: ps => runsFrom s (c :: literal) ps
  | .codes codes :: ps => runOf s literal.reverse ++ runsFrom (s.apply codes) [] ps

theorem runsFrom_literals (s : Style) (literal a : Text) (ps : List Piece) :
    runsFrom s literal (a.map .literal ++ ps) = runsFrom s (a.reverse ++ literal) ps := by
  induction a generalizing literal with
  | nil => rfl
  | cons c cs ih => simp [runsFrom, ih]

theorem code_append_digit (d : Text) (c : Char) :
    code (d ++ [c]) = Scanner.pushDigit (code d) c := by
  rw [code, natValue_append_digit, Scanner.pushDigit, code]
  omega

/-- The number being read, by the digits it has so far. -/
def numberOf (digits : Text) : Option Nat := if digits = [] then none else some (code digits)

@[simp] theorem numberOf_nil : numberOf [] = none := rfl

theorem numberOf_of_ne_nil {digits : Text} (h : digits ≠ []) :
    numberOf digits = some (code digits) := if_neg h

theorem numberOf_append_digit (d : Text) (c : Char) :
    numberOf (d ++ [c]) = some (Scanner.pushDigit ((numberOf d).getD 0) c) := by
  rw [numberOf_of_ne_nil (by simp), code_append_digit]
  by_cases hd : d = []
  · subst hd
    rfl
  · rw [numberOf_of_ne_nil hd]
    rfl

/-- What is kept of an unfinished sequence: numbers, each with its separator, then digits. -/
structure Unfinished.Holds (u : Unfinished) (numbers : List Text) (digits : Text) : Prop where
  numerals : ∀ n ∈ numbers, IsNumeral n
  areDigits : ∀ c ∈ digits, c.isDigit = true
  raw : u.raw.reverse = esc :: '[' :: (numbers.flatMap (· ++ [';']) ++ digits)
  codes : u.codes.reverse = numbers.map code
  current : u.current = numberOf digits

def Pending.Valid : Pending → Prop
  | .none => True
  | .escape => True
  | .parameters u => ∃ numbers digits, u.Holds numbers digits

namespace Unfinished.Holds
variable {u : Unfinished} {numbers : List Text} {digits : Text}

theorem notMem_esc (h : u.Holds numbers digits) :
    esc ∉ '[' :: (numbers.flatMap (· ++ [';']) ++ digits) := by
  have hesc : esc.isDigit = false := rfl
  intro hmem
  rcases List.mem_cons.1 hmem with heq | hmem
  · exact absurd heq (by decide)
  · rcases List.mem_append.1 hmem with hmem | hmem
    · obtain ⟨n, hn, hmem⟩ := List.mem_flatMap.1 hmem
      rcases List.mem_append.1 hmem with hmem | hmem
      · exact ne_of_isDigit ((h.numerals n hn).2 esc hmem) hesc rfl
      · exact absurd (List.mem_singleton.1 hmem) (by decide)
    · exact ne_of_isDigit (h.areDigits esc hmem) hesc rfl

theorem sequence?_eq (h : u.Holds numbers digits) (rest : Text) :
    sequence? (u.raw.reverse ++ rest) = (parameters? (digits ++ rest)).map
      fun (codes, after) => (numbers.map code ++ codes, after) := by
  rw [h.raw, ← parameters?_separated h.numerals]
  simp [sequence?, esc]

theorem pushDigit (h : u.Holds numbers digits) {c : Char} (hc : c.isDigit = true) :
    Holds ⟨c :: u.raw, u.codes, some (Scanner.pushDigit (u.current.getD 0) c)⟩
      numbers (digits ++ [c]) := by
  refine ⟨h.numerals, ?_, by simp [h.raw], h.codes, by rw [numberOf_append_digit, h.current]⟩
  intro d hd
  rcases List.mem_append.1 hd with hd | hd
  · exact h.areDigits d hd
  · rwa [List.mem_singleton.1 hd]

theorem pushSeparator (h : u.Holds numbers digits) (hd : digits ≠ []) :
    Holds ⟨';' :: u.raw, code digits :: u.codes, none⟩ (numbers ++ [digits]) [] := by
  refine ⟨?_, by simp, by simp [h.raw], by simp [h.codes], rfl⟩
  intro n hn
  rcases List.mem_append.1 hn with hn | hn
  · exact h.numerals n hn
  · rw [List.mem_singleton.1 hn]
    exact ⟨hd, h.areDigits⟩

end Unfinished.Holds

namespace Scanner

/-- The runs found so far and those that the rest of the text leads to. -/
def outcome (s : Scanner) (rest : Text) : List Run :=
  s.runs.reverse ++ runsFrom s.style s.literal (pieces (s.pending.raw.reverse ++ rest))

theorem reverse_flush (s : Scanner) (literal : Text) :
    (s.flush literal).reverse = s.runs.reverse ++ runOf s.style literal.reverse := by
  by_cases h : literal = [] <;> simp [flush, runOf, h]

theorem outcome_text {s : Scanner} (hs : s.pending = .none) (c : Char) (rest : Text) :
    (s.text c).pending.Valid ∧ (s.text c).outcome rest = s.outcome (c :: rest) := by
  by_cases hc : c = esc
  · subst hc
    exact ⟨by simp [text, Pending.Valid], by simp [text, outcome, Pending.raw, hs]⟩
  · refine ⟨by simp [text, hc, Pending.Valid], ?_⟩
    simp [text, hc, outcome, Pending.raw, hs, pieces_cons_of_ne_esc hc, runsFrom]

theorem outcome_abandon {s : Scanner} {a : Text} {c : Char} {rest : Text}
    (hraw : s.pending.raw.reverse = esc :: a) (ha : esc ∉ a)
    (hread : sequence? (esc :: (a ++ c :: rest)) = none) :
    (s.abandon c).pending.Valid ∧ (s.abandon c).outcome rest = s.outcome (c :: rest) := by
  have hpieces : pieces (s.pending.raw.reverse ++ c :: rest) =
      s.pending.raw.reverse.map .literal ++ pieces (c :: rest) := by
    rw [hraw]
    exact pieces_of_broken ha hread
  by_cases hc : c = esc
  · subst hc
    refine ⟨by simp [abandon, text, Pending.Valid], ?_⟩
    rw [outcome, outcome, hpieces, runsFrom_literals, List.reverse_reverse]
    simp [abandon, text, Pending.raw]
  · refine ⟨by simp [abandon, text, hc, Pending.Valid], ?_⟩
    rw [outcome, outcome, hpieces, runsFrom_literals, List.reverse_reverse,
      pieces_cons_of_ne_esc hc]
    simp [abandon, text, hc, Pending.raw, runsFrom]

theorem outcome_complete {s : Scanner} {codes : List Nat} {c : Char} {rest : Text}
    (hread : sequence? (s.pending.raw.reverse ++ c :: rest) = some (codes, rest)) :
    (s.complete codes).pending.Valid ∧ (s.complete codes).outcome rest = s.outcome (c :: rest) := by
  refine ⟨by simp [complete, Pending.Valid], ?_⟩
  rw [outcome, outcome, pieces_of_sequence? hread, runsFrom, ← List.append_assoc, ← reverse_flush]
  simp [complete, Pending.raw]

/-- An unfinished sequence with one character more is as good as that character still to come. -/
theorem outcome_keep {s : Scanner} {u u' : Unfinished} (hs : s.pending = .parameters u) {c : Char}
    (hraw : u'.raw = c :: u.raw) (rest : Text) :
    ({ s with pending := .parameters u' } : Scanner).outcome rest = s.outcome (c :: rest) := by
  simp [outcome, hs, Pending.raw, hraw]

/-- A step keeps what is set aside valid, and takes a character from the text to come. -/
theorem outcome_step {s : Scanner} (hs : s.pending.Valid) (c : Char) (rest : Text) :
    (s.step c).pending.Valid ∧ (s.step c).outcome rest = s.outcome (c :: rest) := by
  unfold step
  split
  · next hp => exact outcome_text hp c rest
  · next hp =>
    split
    · next hc =>
      subst hc
      refine ⟨⟨[], [], by simp, by simp, rfl, rfl, rfl⟩, ?_⟩
      simp [outcome, hp, Pending.raw]
    · next hc =>
      refine outcome_abandon (a := []) (by simp [hp, Pending.raw]) (by simp) ?_
      unfold sequence?
      split
      · next h => exact absurd (List.cons.inj (List.cons.inj h).2).1 hc
      · rfl
  · next u hp =>
    obtain ⟨numbers, digits, hu⟩ : ∃ numbers digits, u.Holds numbers digits := by
      simpa [hp, Pending.Valid] using hs
    have hraw : s.pending.raw.reverse = esc :: '[' :: (numbers.flatMap (· ++ [';']) ++ digits) := by
      rw [hp]
      exact hu.raw
    have hread := hu.sequence?_eq (c :: rest)
    -- nothing but a digit, or `;` or `m` after digits, continues the sequence
    have habandon (hc : c.isDigit = false) (h : digits = [] ∨ (c ≠ ';' ∧ c ≠ 'm')) :
        (s.abandon c).pending.Valid ∧ (s.abandon c).outcome rest = s.outcome (c :: rest) := by
      refine outcome_abandon hraw hu.notMem_esc ?_
      have hbroken := parameters?_broken hu.areDigits (c :: rest) (by simpa [hc] using h)
      rw [hbroken, hu.raw] at hread
      exact hread
    split
    · next hc => exact ⟨⟨numbers, _, hu.pushDigit hc⟩, outcome_keep hp rfl rest⟩
    · next hc =>
      have hc : c.isDigit = false := by simpa using hc
      by_cases hd : digits = []
      · rw [hu.current, hd]
        exact habandon hc (.inl hd)
      · rw [hu.current, numberOf_of_ne_nil hd]
        dsimp only
        split
        · next hc' =>
          subst hc'
          exact ⟨⟨_, _, hu.pushSeparator hd⟩, outcome_keep hp rfl rest⟩
        · next hsemicolon =>
          split
          · next hc' =>
            subst hc'
            refine outcome_complete ?_
            rw [parameters?_final ⟨hd, hu.areDigits⟩] at hread
            rw [hp]
            simpa [Pending.raw, hu.codes] using hread
          · next hm => exact habandon hc (.inr ⟨hsemicolon, hm⟩)

theorem outcome_foldl {s : Scanner} (hs : s.pending.Valid) (t rest : Text) :
    (t.foldl step s).pending.Valid ∧ (t.foldl step s).outcome rest = s.outcome (t ++ rest) := by
  induction t generalizing s with
  | nil => exact ⟨hs, rfl⟩
  | cons c cs ih =>
    obtain ⟨hvalid, hstep⟩ := outcome_step hs c (cs ++ rest)
    obtain ⟨hvalid, hrest⟩ := ih hvalid
    exact ⟨hvalid, hrest.trans hstep⟩

/-- What is unfinished at the end of the text is literal. -/
theorem finish_eq_outcome {s : Scanner} (hs : s.pending.Valid) : s.finish = s.outcome [] := by
  have hpieces : pieces s.pending.raw.reverse = s.pending.raw.reverse.map .literal := by
    cases hp : s.pending with
    | none => simp [Pending.raw, pieces]
    | escape =>
      have hpieces := pieces_of_broken (a := []) (t := []) (by simp) rfl
      simpa [Pending.raw, pieces] using hpieces
    | parameters u =>
      rw [hp] at hs
      obtain ⟨numbers, digits, hu⟩ := hs
      have hread := hu.sequence?_eq []
      have hbroken := parameters?_broken hu.areDigits [] (by simp)
      rw [hbroken, List.append_nil, hu.raw] at hread
      have hpieces := pieces_of_broken (t := []) hu.notMem_esc (by simpa using hread)
      simpa [Pending.raw, hu.raw, pieces] using hpieces
  rw [finish, reverse_flush, outcome, List.append_nil, hpieces]
  have hliterals := runsFrom_literals s.style s.literal s.pending.raw.reverse []
  simpa [runsFrom] using hliterals.symm

end Scanner

theorem decode_eq_runsFrom (t : Text) : decode t = runsFrom Style.plain [] (pieces t) := by
  obtain ⟨hvalid, houtcome⟩ := Scanner.outcome_foldl (s := {}) trivial t []
  rw [decode, Scanner.finish_eq_outcome hvalid, houtcome]
  simp [Scanner.outcome, Pending.raw]

end Sgr
end ThemedPrompt
