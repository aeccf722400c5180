import ThemedPrompt.Proofs.Color.Painted
import ThemedPrompt.Proofs.Html.Declarations
import ThemedPrompt.Proofs.Html.Marks

/-! # Faithful HTML

The HTML of a decoded text shows the text, keeps its tags in order, and tells every run apart: the
runs can be read back from it, up to the borders between neighbours in the plain style.
-/
namespace ThemedPrompt
namespace Html
open Sgr

/-- The runs between tags, after characters in reverse: a style holds up to the next tag. -/
def runsOf (s : Style) (written : Text) : List Mark → List Run
  | [] => runOf s (unescape written.reverse)
  | .char c :: ms => runsOf s (c :: written) ms
  | .opening css :: ms => runOf s (unescape written.reverse) ++ runsOf (styleOf css) [] ms
  | .closing :: ms => runOf s (unescape written.reverse) ++ runsOf Style.plain [] ms

/-- What a run becomes: its characters, escaped, in a span if it has a style. -/
def marksOf (r : Run) : List Mark :=
  if r.style = Style.plain then (escape r.content).map .char
  else .opening (css r.style) :: ((escape r.content).map .char ++ [.closing])

section
variable {r : Run} {rs : List Run}

theorem ofRun_of_styled (hr : r.style ≠ Style.plain) :
    ofRun r = spanStart ++ (css r.style ++ (styleEnd ++ (escape r.content ++ spanEnd))) := by
  rw [ofRun, if_neg (fun h => hr ((css_eq_nil_iff r.style).1 h))]
  simp only [List.append_assoc]
  rfl

theorem ofRun_of_plain (hr : r.style = Style.plain) : ofRun r = escape r.content := by
  rw [ofRun, if_pos ((css_eq_nil_iff r.style).2 hr)]

theorem marks_ofRun_append (hr : r.style.Canonical) (rest : Text) :
    marks (ofRun r ++ rest) = marksOf r ++ marks rest := by
  unfold marksOf
  by_cases hplain : r.style = Style.plain
  · rw [if_pos hplain, ofRun_of_plain hplain, marks_escape_append]
  · rw [if_neg hplain, ofRun_of_styled hplain]
    simp only [List.append_assoc]
    rw [marks_opening (notMem_quote_css hr), marks_escape_append, marks_closing]
    simp

theorem marks_ofRuns (hrs : ∀ r ∈ rs, r.style.Canonical) : marks (ofRuns rs) = rs.flatMap marksOf := by
  induction rs with
  | nil => exact marks.eq_1
  | cons r rs ih =>
    obtain ⟨hr, hrs⟩ := List.forall_mem_cons.1 hrs
    have hrest := ih hrs
    rw [ofRuns, List.flatMap_cons, ← ofRuns, marks_ofRun_append hr, hrest, List.flatMap_cons]

theorem filterMap_marksOf (r : Run) : (marksOf r).filterMap Mark.char? = escape r.content := by
  have hchars (t : Text) : (t.map Mark.char).filterMap Mark.char? = t := by
    rw [List.filterMap_map]
    exact List.filterMap_some
  unfold marksOf
  split
  · exact hchars _
  · rw [List.filterMap_cons, List.filterMap_append, hchars]
    exact List.append_nil _

theorem filterMap_flatMap_marksOf (rs : List Run) :
    (rs.flatMap marksOf).filterMap Mark.char? = escape (rs.flatMap Run.content) := by
  induction rs with
  | nil => rfl
  | cons r rs ih =>
    rw [List.flatMap_cons, List.filterMap_append, filterMap_marksOf, ih, List.flatMap_cons,
      escape_append]

theorem notMem_special_of_mem_marksOf {c : Char} (hc : Mark.char c ∈ marksOf r) : c ∉ special := by
  have hmem : c ∈ (marksOf r).filterMap Mark.char? := List.mem_filterMap.2 ⟨_, hc, rfl⟩
  rw [filterMap_marksOf] at hmem
  exact notMem_special_of_mem_escape hmem

theorem closesEach_map_char (inside : Bool) (t : Text) (ms : List Mark) :
    closesEach inside (t.map .char ++ ms) = closesEach inside ms := by
  induction t with
  | nil => rfl
  | cons c cs ih => exact ih

theorem closesEach_flatMap_marksOf (rs : List Run) : closesEach false (rs.flatMap marksOf) = true := by
  induction rs with
  | nil => rfl
  | cons r rs ih =>
    rw [List.flatMap_cons, marksOf]
    split
    · rw [closesEach_map_char, ih]
    · rw [List.cons_append, List.append_assoc, closesEach, closesEach_map_char]
      exact ih

theorem runsOf_map_char (s : Style) (written t : Text) (ms : List Mark) :
    runsOf s written (t.map .char ++ ms) = runsOf s (t.reverse ++ written) ms := by
  induction t generalizing written with
  | nil => rfl
  | cons c cs ih => simp [runsOf, ih]

/-- What is read after some plain text is joined with that text, as far as it is plain. -/
theorem runsOf_flatMap_marksOf (hrs : ∀ r ∈ rs, r.style.Canonical ∧ r.content ≠ []) (literal : Text) :
    runsOf Style.plain (escape literal).reverse (rs.flatMap marksOf) =
      joinPlain (runOf Style.plain literal ++ rs) := by
  induction rs generalizing literal with
  | nil =>
    rw [List.flatMap_nil, runsOf, List.reverse_reverse, unescape_escape, List.append_nil,
      joinPlain_runOf_plain]
  | cons r rs ih =>
    obtain ⟨⟨hr, hne⟩, hrs⟩ := List.forall_mem_cons.1 hrs
    rw [List.flatMap_cons, marksOf]
    by_cases hplain : r.style = Style.plain
    · have hrun : r = ⟨r.content, Style.plain⟩ := by rw [← hplain]
      have hrest := ih hrs (literal ++ r.content)
      rw [escape_append, List.reverse_append] at hrest
      rw [if_pos hplain, runsOf_map_char, hrest, hrun, joinPlain_runOf_cons_plain literal hne]
    · have hrest : runsOf Style.plain [] (rs.flatMap marksOf) = joinPlain rs := ih hrs []
      have hrun : runOf r.style r.content = [r] := if_neg hne
      rw [if_neg hplain, List.cons_append, List.append_assoc, runsOf, List.reverse_reverse,
        unescape_escape, runsOf_map_char, List.append_nil, List.singleton_append, runsOf,
        List.reverse_reverse, unescape_escape, styleOf_css hr, hrun, hrest,
        joinPlain_runOf_cons_styled literal hplain, List.singleton_append]

theorem ofRuns_joinTo (r : Run) (rs : List Run) : ofRuns (joinTo r rs) = ofRun r ++ ofRuns rs := by
  cases rs with
  | nil => rfl
  | cons q rs =>
    rw [joinTo]
    split
    · next h =>
      have hjoined : ofRun ⟨r.content ++ q.content, Style.plain⟩ = ofRun r ++ ofRun q := by
        rw [ofRun_of_plain rfl, ofRun_of_plain h.1, ofRun_of_plain h.2, escape_append]
      rw [ofRuns, List.flatMap_cons, hjoined, List.append_assoc]
      rfl
    · rfl

/-- Where two neighbours are plain, the border between them leaves no trace. -/
theorem ofRuns_joinPlain (rs : List Run) : ofRuns (joinPlain rs) = ofRuns rs := by
  induction rs with
  | nil => rfl
  | cons r rs ih =>
    rw [joinPlain_cons, ofRuns_joinTo, ih]
    rfl

end

/-- The runs that a text is read as. -/
def runs (html : Text) : List Run := runsOf Style.plain [] (marks html)

theorem runs_ofRuns_decode (t : Text) : runs (ofRuns (decode t)) = joinPlain (decode t) := by
  have hcanonical : ∀ r ∈ decode t, r.style.Canonical := fun r => canonical_of_mem_decode
  have hne : ∀ r ∈ decode t, r.content ≠ [] := by
    intro r hr
    rw [decode_eq_runsFrom] at hr
    exact content_ne_nil_of_mem_runsFrom hr
  have hread := runsOf_flatMap_marksOf (fun r hr => ⟨hcanonical r hr, hne r hr⟩) []
  rw [runs, marks_ofRuns hcanonical]
  exact hread

/-- HTML shows the text of its runs and nothing else between tags that are closed one by one, and it
is the same for two texts just if their runs are, up to borders in the plain style. -/
theorem ofRuns_decode_faithful :
    (∀ t, (marks t).flatMap Mark.source = t) ∧
    (∀ t, unescape (withoutTags (ofRuns (decode t))) = strip t ∧
      (∀ c, Mark.char c ∈ marks (ofRuns (decode t)) → c ∉ ['<', '>', '"', '\'']) ∧
      closesEach false (marks (ofRuns (decode t))) = true ∧
      runs (ofRuns (decode t)) = joinPlain (decode t)) ∧
    ∀ t u, ofRuns (decode t) = ofRuns (decode u) ↔ joinPlain (decode t) = joinPlain (decode u) := by
  refine ⟨flatMap_source_marks, ?_, ?_⟩
  · intro t
    have hmarks : marks (ofRuns (decode t)) = (decode t).flatMap marksOf :=
      marks_ofRuns fun r => canonical_of_mem_decode
    refine ⟨?_, ?_, ?_, runs_ofRuns_decode t⟩
    · rw [withoutTags, hmarks, filterMap_flatMap_marksOf, unescape_escape, flatMap_content_decode]
    · intro c hc
      rw [hmarks] at hc
      obtain ⟨r, -, hmem⟩ := List.mem_flatMap.1 hc
      exact notMem_special_of_mem_marksOf hmem
    · rw [hmarks, closesEach_flatMap_marksOf]
  · intro t u
    constructor
    · intro h
      rw [← runs_ofRuns_decode t, ← runs_ofRuns_decode u, h]
    · intro h
      rw [← ofRuns_joinPlain (decode t), ← ofRuns_joinPlain (decode u), h]

/-- A reset between plain texts leaves no trace, and an entity in a text is no entity of the HTML. -/
theorem ofRuns_decode_faithful_plainBorder :
    joinPlain (decode "<\x1b[0m>".toList) = joinPlain (decode "<>".toList) ∧
      ofRuns (decode "<\x1b[0m>".toList) = ofRuns (decode "<>".toList) ∧
      unescape (withoutTags (ofRuns (decode "\x1b[1;31m&lt;\"</span>".toList))) =
        "&lt;\"</span>".toList := by
  obtain ⟨-, htext, hsame⟩ := ofRuns_decode_faithful
  have hjoin : joinPlain (decode "<\x1b[0m>".toList) = joinPlain (decode "<>".toList) := by
    decide +kernel
  refine ⟨hjoin, (hsame _ _).2 hjoin, ?_⟩
  rw [(htext _).1]
  decide +kernel

end Html
end ThemedPrompt
