import ThemedPrompt.Text.Blank

/-! # Cutting texts

A text is cut where it was put together: splitting undoes joining, a start is taken off again, a
pair of braces is found where it first stands, and trimming takes off the blanks around a word.
-/
namespace ThemedPrompt
namespace Text
variable {α : Type} {p : α → Bool}

theorem splitBy_of_none {t : List α} (ht : ∀ c ∈ t, p c = false) : splitBy p t = [t] := by
  induction t with
  | nil => rfl
  | cons c cs ih =>
    have hcs := ih (fun d hd => ht d (List.mem_cons_of_mem c hd))
    simp [splitBy, ht c List.mem_cons_self, hcs]

theorem splitBy_ne_nil (p : α → Bool) (t : List α) : splitBy p t ≠ [] := by
  cases t with
  | nil => exact List.cons_ne_nil _ _
  | cons c cs =>
    rw [splitBy]
    split
    · exact List.cons_ne_nil _ _
    · split <;> exact List.cons_ne_nil _ _

theorem splitBy_append_cons {t : List α} (ht : ∀ c ∈ t, p c = false) (separator : α)
    (hs : p separator = true) (rest : List α) :
    splitBy p (t ++ separator :: rest) = t :: splitBy p rest := by
  induction t with
  | nil => simp [splitBy, hs]
  | cons c cs ih =>
    have hcs := ih (fun d hd => ht d (List.mem_cons_of_mem c hd))
    simp [splitBy, ht c List.mem_cons_self, hcs]

/-- A separator parts the pieces on its two sides. -/
theorem splitBy_append_separator {separator : α} (hs : p separator = true) (t rest : List α) :
    splitBy p (t ++ separator :: rest) = splitBy p t ++ splitBy p rest := by
  induction t with
  | nil => simp [splitBy, hs]
  | cons c cs ih =>
    rw [List.cons_append, splitBy, splitBy, ih]
    cases hc : p c with
    | true => rfl
    | false =>
      cases hcs : splitBy p cs with
      | nil => exact absurd hcs (splitBy_ne_nil p cs)
      | cons piece pieces => rfl

theorem splitBy_join (p : Char → Bool) (separator : Char) (hs : p separator = true)
    {pieces : List Text} (hne : pieces ≠ []) (hp : ∀ t ∈ pieces, ∀ c ∈ t, p c = false) :
    splitBy p (join [separator] pieces) = pieces := by
  fun_induction join [separator] pieces with
  | case1 => exact absurd rfl hne
  | case2 t => exact splitBy_of_none (hp t List.mem_cons_self)
  | case3 t u rest ih =>
    have hrest := ih (List.cons_ne_nil u rest) (fun v hv => hp v (List.mem_cons_of_mem t hv))
    rw [List.append_assoc, List.singleton_append,
      splitBy_append_cons (hp t List.mem_cons_self) separator hs, hrest]

/-- The pieces of a text, with the separator between them again, are the text. -/
theorem join_splitBy (separator : Char) (t : Text) :
    join [separator] (splitBy (· = separator) t) = t := by
  induction t with
  | nil => rfl
  | cons c cs ih =>
    obtain ⟨piece, pieces, hpieces⟩ :=
      List.exists_cons_of_ne_nil (splitBy_ne_nil (· = separator) cs)
    rw [hpieces] at ih
    rw [splitBy, hpieces]
    by_cases hc : c = separator
    · simp [hc, join, ih]
    · cases pieces with
      | nil => simpa [hc, join] using ih
      | cons next rest => simpa [hc, join] using ih

theorem append_of_after? {start t rest : Text} (h : after? start t = some rest) :
    t = start ++ rest := by
  fun_induction after? start t with
  | case1 t => exact Option.some.inj h
  | case2 => cases h
  | case3 ss c cs ih => rw [ih h, List.cons_append]
  | case4 => cases h

theorem after?_append (start rest : Text) : after? start (start ++ rest) = some rest := by
  induction start with
  | nil => rfl
  | cons s ss ih => rw [List.cons_append, after?, if_pos rfl, ih]

theorem cutAtPair?_of_notMem {brace : Char} {t : Text} (ht : brace ∉ t) :
    cutAtPair? brace t = none := by
  fun_induction cutAtPair? brace t with
  | case1 => rfl
  | case2 => rfl
  | case3 c d rest hb => exact absurd (List.mem_cons.2 (.inl hb.1.symm)) ht
  | case4 c d rest _ ih => rw [ih (List.not_mem_of_not_mem_cons ht), Option.map_none]

theorem cutAtPair?_append {brace : Char} {t : Text} (ht : brace ∉ t) (rest : Text) :
    cutAtPair? brace (t ++ brace :: brace :: rest) = some (t, rest) := by
  induction t with
  | nil => simp [cutAtPair?]
  | cons c cs ih =>
    have hc : c ≠ brace := (List.ne_of_not_mem_cons ht).symm
    have hcs := ih (List.not_mem_of_not_mem_cons ht)
    cases cs with
    | nil => simp [cutAtPair?, hc]
    | cons d ds =>
      rw [List.cons_append, List.cons_append, cutAtPair?, if_neg (fun h => hc h.1),
        ← List.cons_append, hcs]
      rfl

theorem not_infix_of_cutAtPair?_eq_none {brace : Char} {t : Text} (h : cutAtPair? brace t = none) :
    ¬ [brace, brace] <:+: t := by
  fun_induction cutAtPair? brace t with
  | case1 => simp
  | case2 c =>
    intro hpair
    exact absurd hpair.length_le (by simp)
  | case3 c d rest => cases h
  | case4 c d rest hb ih =>
    rw [List.infix_cons_iff, List.cons_prefix_cons, List.cons_prefix_cons]
    rintro (⟨rfl, rfl, -⟩ | hpair)
    · exact hb ⟨rfl, rfl⟩
    · exact ih (Option.map_eq_none_iff.1 h) hpair

/-- The cut is at the first pair: not even the first brace of it ends an earlier one. -/
theorem not_infix_of_cutAtPair? {brace : Char} {t before after : Text}
    (h : cutAtPair? brace t = some (before, after)) : ¬ [brace, brace] <:+: before ++ [brace] := by
  fun_induction cutAtPair? brace t generalizing before with
  | case1 => cases h
  | case2 => cases h
  | case3 c d rest hb =>
    obtain ⟨rfl, rfl⟩ := Option.some.inj h
    intro hpair
    exact absurd hpair.length_le (by simp)
  | case4 c d rest hb ih =>
    obtain ⟨⟨front, back⟩, hcut, heq⟩ := Option.map_eq_some_iff.1 h
    obtain ⟨rfl, rfl⟩ := heq
    have hfront : front ++ [brace] <+: d :: rest := by
      rw [append_of_cutAtPair? hcut]
      exact ⟨brace :: after, by simp⟩
    rw [List.cons_append, List.infix_cons_iff]
    rintro (hpair | hpair)
    · have hpair := hpair.trans (List.cons_prefix_cons.2 ⟨rfl, hfront⟩)
      rw [List.cons_prefix_cons, List.cons_prefix_cons] at hpair
      exact hb ⟨hpair.1.symm, hpair.2.1.symm⟩
    · exact ih hcut hpair

theorem dropWhile_of_head {t : List α} (ht : ∀ c ∈ t.head?, p c = false) : t.dropWhile p = t := by
  cases t with
  | nil => rfl
  | cons c cs =>
    have hc := ht c rfl
    simp [hc]

theorem takeWhile_of_head {t : List α} (ht : ∀ c ∈ t.head?, p c = false) : t.takeWhile p = [] := by
  cases t with
  | nil => rfl
  | cons c cs =>
    have hc := ht c rfl
    simp [hc]

/-- The characters of a class up to the first of another are found again. -/
theorem span_append {t rest : List α} (ht : ∀ c ∈ t, p c = true)
    (hrest : ∀ c ∈ rest.head?, p c = false) :
    (t ++ rest).takeWhile p = t ∧ (t ++ rest).dropWhile p = rest := by
  constructor
  · rw [List.takeWhile_append_of_pos ht, takeWhile_of_head hrest, List.append_nil]
  · rw [List.dropWhile_append_of_pos ht, dropWhile_of_head hrest]

/-- A word with blanks around it is what trimming leaves, if it has none at its ends itself. -/
theorem trim_append {left word right : Text} (hleft : ∀ c ∈ left, isBlank c = true)
    (hright : ∀ c ∈ right, isBlank c = true) (hne : word ≠ [])
    (hfirst : ∀ c ∈ word.head?, isBlank c = false)
    (hlast : ∀ c ∈ word.getLast?, isBlank c = false) :
    trim (left ++ (word ++ right)) = word := by
  have hstart : (left ++ (word ++ right)).dropWhile isBlank = word ++ right := by
    obtain ⟨c, cs, rfl⟩ := List.exists_cons_of_ne_nil hne
    rw [List.dropWhile_append_of_pos hleft]
    exact dropWhile_of_head hfirst
  have hback : (word ++ right).reverse.dropWhile isBlank = word.reverse := by
    rw [List.reverse_append, List.dropWhile_append_of_pos (by simpa using hright),
      dropWhile_of_head (by simpa using hlast)]
  rw [trim, trimBy, hstart, dropEnd, hback, List.reverse_reverse]

end Text
end ThemedPrompt
