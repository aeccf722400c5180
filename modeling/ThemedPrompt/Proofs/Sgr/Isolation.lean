import ThemedPrompt.Proofs.Sgr.Decode

/-! # What a sequence leaves of the text before it

A whole sequence ends what the scanner has set aside, in whatever state it finds it: nothing but
the style reaches the text behind it, and after a reset not even that.
-/
namespace ThemedPrompt
namespace Sgr
open Text

namespace Scanner

/-- The scanner after an unfinished sequence has been given up. -/
def settle (s : Scanner) : Scanner :=
  { s with literal := s.pending.raw ++ s.literal, pending := .none }

theorem step_esc (s : Scanner) : s.step esc = { s.settle with pending := .escape } := by
  have hbracket : esc ≠ '[' := by decide
  have hdigit : esc.isDigit = false := rfl
  have hsemicolon : esc ≠ ';' := by decide
  have hm : esc ≠ 'm' := by decide
  unfold step
  split
  · next hp => simp [settle, hp, text, Pending.raw]
  · next hp => simp [settle, hp, hbracket, abandon, text, Pending.raw]
  · next u hp =>
    cases hu : u.current with
    | none => simp [settle, hp, hdigit, abandon, text, Pending.raw]
    | some n => simp [settle, hp, hdigit, hsemicolon, hm, abandon, text, Pending.raw]

theorem foldl_digits (s : Scanner) (raw before d : Text) (codes : List Nat)
    (hd : ∀ c ∈ d, c.isDigit = true) :
    d.foldl step { s with pending := .parameters ⟨raw, codes, numberOf before⟩ } =
      { s with pending := .parameters ⟨d.reverse ++ raw, codes, numberOf (before ++ d)⟩ } := by
  induction d generalizing raw before with
  | nil => simp
  | cons c cs ih =>
    have hc := hd c List.mem_cons_self
    have hrest := ih (c :: raw) (before ++ [c]) (fun e he => hd e (List.mem_cons_of_mem c he))
    simpa [step, hc, numberOf_append_digit] using hrest

theorem foldl_numbers (s : Scanner) (raw : Text) (codes : List Nat) {numbers : List Text}
    (hne : numbers ≠ []) (hall : ∀ n ∈ numbers, IsNumeral n) :
    (join [';'] numbers ++ ['m']).foldl step
        { s with pending := .parameters ⟨raw, codes, none⟩ } =
      s.complete (codes.reverse ++ numbers.map code) := by
  -- The digits of a number are read at once, and what stands behind them stores it.
  fun_induction join [';'] numbers generalizing raw codes with
  | case1 => exact absurd rfl hne
  | case2 n =>
    have hn := hall n List.mem_cons_self
    have hdigits := foldl_digits s raw [] n codes hn.2
    rw [List.foldl_append]
    rw [numberOf_nil, List.nil_append, numberOf_of_ne_nil hn.1] at hdigits
    rw [hdigits]
    simp [step, complete, flush]
  | case3 n k ns ih =>
    have hn := hall n List.mem_cons_self
    have hdigits := foldl_digits s raw [] n codes hn.2
    have hrest := ih (';' :: (n.reverse ++ raw)) (code n :: codes) (List.cons_ne_nil k ns)
      (fun l hl => hall l (List.mem_cons_of_mem n hl))
    rw [numberOf_nil, List.nil_append, numberOf_of_ne_nil hn.1] at hdigits
    rw [List.append_assoc, List.append_assoc, List.foldl_append, hdigits, List.singleton_append,
      List.foldl_cons]
    simpa [step] using hrest

/-- Whatever a scanner has set aside, a whole sequence is read as such. -/
theorem foldl_sequence (s : Scanner) {found : Text} (hfound : IsSequence found) :
    found.foldl step s = s.settle.complete (codesOf found) := by
  obtain ⟨numbers, hne, hall, rfl⟩ := isSequence_iff.1 hfound
  have hnumbers := foldl_numbers s.settle ['[', esc] [] hne hall
  rw [codesOf_written hne hall, written, List.foldl_cons, List.foldl_cons, step_esc]
  simpa [step] using hnumbers

theorem reverse_runs_complete (s : Scanner) (codes : List Nat) :
    (s.settle.complete codes).runs.reverse = s.finish := by
  simp [settle, complete, finish, flush]

end Scanner

/-- Only its style reaches from the text before a sequence into the text behind it. -/
theorem decode_append_sequence_append (a : Text) {found : Text} (hfound : IsSequence found)
    (b : Text) : decode (a ++ (found ++ b)) =
      decode a ++ runsFrom ((a.foldl Scanner.step {}).style.apply (codesOf found)) [] (pieces b) := by
  let s := a.foldl Scanner.step {}
  have hread : (a ++ (found ++ b)).foldl Scanner.step {} =
      b.foldl Scanner.step (s.settle.complete (codesOf found)) := by
    rw [List.foldl_append, List.foldl_append, Scanner.foldl_sequence s hfound]
  obtain ⟨hvalid, houtcome⟩ :=
    Scanner.outcome_foldl (s := s.settle.complete (codesOf found)) trivial b []
  rw [decode, hread, Scanner.finish_eq_outcome hvalid, houtcome, Scanner.outcome,
    Scanner.reverse_runs_complete]
  simp [Scanner.complete, Scanner.settle, Pending.raw, s, decode]

theorem write_eq_written (codes : List Nat) : write codes = written (codes.map ofNat) := rfl

theorem isNumeral_of_mem_map_ofNat {codes : List Nat} {n : Text} (hn : n ∈ codes.map ofNat) :
    IsNumeral n := by
  obtain ⟨k, _, rfl⟩ := List.mem_map.1 hn
  exact isNumeral_ofNat k

theorem isSequence_write {codes : List Nat} (hne : codes ≠ []) : IsSequence (write codes) := by
  have hnumbers : codes.map ofNat ≠ [] := by simpa using hne
  exact isSequence_written hnumbers (fun _ => isNumeral_of_mem_map_ofNat)

theorem codesOf_write {codes : List Nat} (hne : codes ≠ []) :
    codesOf (write codes) = codes.map (min · codeLimit) := by
  have hnumbers : codes.map ofNat ≠ [] := by simpa using hne
  rw [write_eq_written, codesOf_written hnumbers (fun _ => isNumeral_of_mem_map_ofNat),
    List.map_map]
  refine List.map_congr_left ?_
  intro k _
  simp [code]

example : reset = "\x1b[0m".toList := by decide +kernel

theorem isSequence_reset : IsSequence reset := isSequence_write (List.cons_ne_nil 0 [])

theorem apply_reset (s : Style) : s.apply (codesOf reset) = Style.plain := by
  rw [reset, codesOf_write (List.cons_ne_nil 0 [])]
  rfl

/-- A reset parts the runs of its two sides, and any sequence the text that is left of them. -/
theorem decode_append_reset_append :
    (∀ a b, decode (a ++ (reset ++ b)) = decode a ++ decode b) ∧
      ∀ a s b, IsSequence s → strip (a ++ (s ++ b)) = strip a ++ strip b := by
  constructor
  · intro a b
    have hreset : IsSequence reset := isSequence_write (List.cons_ne_nil 0 [])
    rw [decode_append_sequence_append a hreset b, apply_reset, decode_eq_runsFrom b]
  · intro a s b hs
    rw [← flatMap_content_decode, decode_append_sequence_append a hs b, List.flatMap_append,
      flatMap_content_decode, flatMap_content_runsFrom]
    rfl

theorem strip_truncated_append_bold :
    IsSequence "\x1b[1m".toList ∧
      strip ("a\x1b[3".toList ++ ("\x1b[1m".toList ++ "1mb".toList)) = "a\x1b[31mb".toList := by
  have hbold : IsSequence "\x1b[1m".toList := by decide +kernel
  refine ⟨hbold, ?_⟩
  rw [decode_append_reset_append.2 _ _ _ hbold]
  decide +kernel

end Sgr
end ThemedPrompt
