import ThemedPrompt.Html
import ThemedPrompt.Proofs.Text.Cutting

/-! # Tags and text in HTML

HTML is cut into the tags of spans and the characters between them, and cutting loses nothing. What
is written for runs is cut as it was put together, and the text between the tags is what was escaped.
-/
namespace ThemedPrompt

namespace Html

/-- What stands in front of the style of a span, behind it, and behind the span. -/
def spanStart : Text := "<span style=\"".toList

def styleEnd : Text := "\">".toList

def spanEnd : Text := "</span>".toList

inductive Mark
  | opening (css : Text)
  | closing
  | char (c : Char)
deriving DecidableEq, Repr

namespace Mark

def source : Mark → Text
  | .opening css => spanStart ++ (css ++ styleEnd)
  | .closing => spanEnd
  | .char c => [c]

def char? : Mark → Option Char
  | .char c => some c
  | _ => none

end Mark

/-- The tag at the front of a text, and what follows it. A style goes up to the next quote. -/
def tag? (t : Text) : Option (Mark × Text) :=
  match Text.after? spanEnd t with
  | some rest => some (.closing, rest)
  | none =>
    (Text.after? spanStart t).bind fun behind =>
      (Text.after? styleEnd (behind.dropWhile (· ≠ '"'))).map fun rest =>
        (.opening (behind.takeWhile (· ≠ '"')), rest)

theorem append_of_tag? {t rest : Text} {mark : Mark} (h : tag? t = some (mark, rest)) :
    t = mark.source ++ rest := by
  unfold tag? at h
  split at h
  · next rest' hclosing =>
    obtain ⟨rfl, rfl⟩ := Prod.mk.inj (Option.some.inj h)
    exact Text.append_of_after? hclosing
  · obtain ⟨behind, hopening, h⟩ := Option.bind_eq_some_iff.1 h
    obtain ⟨rest', hquote, heq⟩ := Option.map_eq_some_iff.1 h
    obtain ⟨rfl, rfl⟩ := Prod.mk.inj heq
    have hbehind := List.takeWhile_append_dropWhile (p := (· ≠ '"')) (l := behind)
    rw [Text.append_of_after? hquote] at hbehind
    rw [Text.append_of_after? hopening, Mark.source, List.append_assoc, List.append_assoc, hbehind]

theorem length_of_tag? {t rest : Text} {mark : Mark} (h : tag? t = some (mark, rest)) :
    rest.length < t.length := by
  have hsource : 0 < mark.source.length := by
    cases mark with
    | opening css =>
      rw [Mark.source, List.length_append]
      exact Nat.add_pos_left (by decide) _
    | closing => decide
    | char c => exact Nat.one_pos
  rw [append_of_tag? h, List.length_append]
  omega

/-- Cuts a text into tags and the characters that belong to none. -/
def marks : Text → List Mark
  | [] => []
  | c :: cs =>
    match _h : tag? (c :: cs) with
    | some (mark, rest) => mark :: marks rest
    | none => .char c :: marks cs
termination_by t => t.length
decreasing_by
  · exact length_of_tag? _h
  · simp

theorem flatMap_source_marks (t : Text) : (marks t).flatMap Mark.source = t := by
  fun_induction marks t with
  | case1 => rfl
  | case2 c cs mark rest htag ih => rw [List.flatMap_cons, ih, append_of_tag? htag]
  | case3 c cs htag ih => rw [List.flatMap_cons, ih]; rfl

def withoutTags (t : Text) : Text := (marks t).filterMap Mark.char?

/-- Every span is closed before the next one is opened. -/
def closesEach (inside : Bool) : List Mark → Bool
  | [] => !inside
  | .char _ :: ms => closesEach inside ms
  | .opening _ :: ms => !inside && closesEach true ms
  | .closing :: ms => inside && closesEach false ms

/-- Each of the five entities stands for its character again. -/
def unescape : Text → Text
  | '&' :: 'a' :: 'm' :: 'p' :: ';' :: rest => '&' :: unescape rest
  | '&' :: 'l' :: 't' :: ';' :: rest => '<' :: unescape rest
  | '&' :: 'g' :: 't' :: ';' :: rest => '>' :: unescape rest
  | '&' :: 'q' :: 'u' :: 'o' :: 't' :: ';' :: rest => '"' :: unescape rest
  | '&' :: '#' :: '3' :: '9' :: ';' :: rest => '\'' :: unescape rest
  | c :: rest => c :: unescape rest
  | [] => []

/-- The characters that have a meaning in HTML: angle brackets and quotes. -/
def special : List Char := ['<', '>', '"', '\'']

theorem unescape_cons {c : Char} (hc : c ≠ '&') (rest : Text) :
    unescape (c :: rest) = c :: unescape rest := by
  rw [unescape.eq_6]
  -- Every entity starts with an ampersand.
  all_goals
    intro behind hamp
    exact absurd hamp hc

theorem escapeChar_of_ne {c : Char} (hamp : c ≠ '&') (hc : c ∉ special) : escapeChar c = [c] := by
  simp only [special, List.mem_cons, List.not_mem_nil, or_false, not_or] at hc
  obtain ⟨hlt, hgt, hquote, hapostrophe⟩ := hc
  unfold escapeChar
  split <;> simp_all

theorem unescape_escapeChar (c : Char) (rest : Text) :
    unescape (escapeChar c ++ rest) = c :: unescape rest := by
  by_cases hamp : c = '&'
  · subst hamp
    rfl
  · by_cases hc : c ∈ special
    · simp only [special, List.mem_cons, List.not_mem_nil, or_false] at hc
      rcases hc with rfl | rfl | rfl | rfl <;> rfl
    · rw [escapeChar_of_ne hamp hc, List.singleton_append, unescape_cons hamp]

/-- Escaped text is found again in front of anything. -/
theorem unescape_escape_append (t rest : Text) : unescape (escape t ++ rest) = t ++ unescape rest := by
  induction t with
  | nil => rfl
  | cons c cs ih =>
    rw [escape, List.flatMap_cons, List.append_assoc, unescape_escapeChar, ← escape, ih]
    rfl

theorem unescape_escape (t : Text) : unescape (escape t) = t := by
  have h := unescape_escape_append t []
  simpa [unescape] using h

theorem escape_append (t u : Text) : escape (t ++ u) = escape t ++ escape u := List.flatMap_append

theorem notMem_special_of_mem_escapeChar {c d : Char} (hd : d ∈ escapeChar c) : d ∉ special := by
  have hall : (escapeChar c).all fun d => decide (d ∉ special) := by
    by_cases hamp : c = '&'
    · subst hamp
      decide
    · by_cases hc : c ∈ special
      · simp only [special, List.mem_cons, List.not_mem_nil, or_false] at hc
        rcases hc with rfl | rfl | rfl | rfl <;> decide
      · rw [escapeChar_of_ne hamp hc, List.all_cons, decide_eq_true hc]
        rfl
  exact of_decide_eq_true (List.all_eq_true.1 hall d hd)

theorem notMem_special_of_mem_escape {t : Text} {d : Char} (hd : d ∈ escape t) : d ∉ special := by
  obtain ⟨c, -, hmem⟩ := List.mem_flatMap.1 hd
  exact notMem_special_of_mem_escapeChar hmem

theorem marks_of_tag? {t rest : Text} {mark : Mark} (h : tag? t = some (mark, rest)) :
    marks t = mark :: marks rest := by
  cases t with
  | nil => cases h
  | cons c cs =>
    rw [marks]
    split
    · next h' =>
      cases h.symm.trans h'
      rfl
    · next h' => cases h.symm.trans h'

theorem marks_char {c : Char} (hc : c ≠ '<') (t : Text) : marks (c :: t) = .char c :: marks t := by
  have hclosing : Text.after? spanEnd (c :: t) = none := if_neg hc.symm
  have hopening : Text.after? spanStart (c :: t) = none := if_neg hc.symm
  have htag : tag? (c :: t) = none := by
    rw [tag?, hclosing]
    dsimp only
    rw [hopening]
    rfl
  rw [marks]
  split
  · next h => cases htag.symm.trans h
  · rfl

theorem marks_escape_append (t rest : Text) :
    marks (escape t ++ rest) = (escape t).map .char ++ marks rest := by
  have hchars (u : Text) : (∀ d ∈ u, d ∉ special) →
      marks (u ++ rest) = u.map .char ++ marks rest := by
    induction u with
    | nil => exact fun _ => rfl
    | cons d ds ih =>
      intro hu
      obtain ⟨hd, hds⟩ := List.forall_mem_cons.1 hu
      have hne : d ≠ '<' := by
        rintro rfl
        exact hd (by decide)
      rw [List.cons_append, marks_char hne, ih hds]
      rfl
  exact hchars (escape t) fun d => notMem_special_of_mem_escape

theorem marks_closing (rest : Text) : marks (spanEnd ++ rest) = .closing :: marks rest := by
  apply marks_of_tag?
  rw [tag?, Text.after?_append]

theorem marks_opening {css : Text} (hcss : '"' ∉ css) (rest : Text) :
    marks (spanStart ++ (css ++ (styleEnd ++ rest))) = .opening css :: marks rest := by
  apply marks_of_tag?
  have hnone : Text.after? spanEnd (spanStart ++ (css ++ (styleEnd ++ rest))) = none := rfl
  have hquote : ∀ c ∈ (styleEnd ++ rest).head?, decide (c ≠ '"') = false := by
    rintro c ⟨⟩
    rfl
  have hbefore : ∀ c ∈ css, decide (c ≠ '"') = true := by
    intro c hc
    apply decide_eq_true
    rintro rfl
    exact hcss hc
  obtain ⟨htake, hdrop⟩ := Text.span_append hbefore hquote
  rw [tag?, hnone]
  dsimp only
  rw [Text.after?_append, Option.bind_some, hdrop, htake, Text.after?_append]
  rfl

end Html
end ThemedPrompt
