import ThemedPrompt.Proofs.Template.TokenSource

/-! # Finding tags

No tag is overlooked. A text between tags holds no opening pair of braces with a closing pair
behind it, what stands between the braces of a tag holds no pair at all, and texts are cut in two
only in front of an opening pair, where an earlier one is given up.
-/
namespace ThemedPrompt
namespace Template
open Text

/-- Whether a tag stands anywhere in a text, whatever is between its braces. -/
def HoldsTag (t : Text) : Prop := ∃ inner, tagSource inner <:+: t

theorem not_holdsTag_of_no_pair {t : Text} (h : ¬ ['{', '{'] <:+: t) : ¬ HoldsTag t := by
  rintro ⟨inner, htag⟩
  have hpair : ['{', '{'] <:+: tagSource inner := ⟨[], inner ++ ['}', '}'], rfl⟩
  exact h (hpair.trans htag)

/-- A tag would start at the first opening pair or later, and end in what follows that pair. -/
theorem not_holdsTag_of_first {before after : Text} (hfirst : ¬ ['{', '{'] <:+: before ++ ['{'])
    (hclose : ¬ ['}', '}'] <:+: after) : ¬ HoldsTag (before ++ '{' :: '{' :: after) := by
  rintro ⟨inner, front, back, htag⟩
  have hlength := congrArg List.length htag
  simp only [tagSource, List.length_append, List.length_cons, List.length_nil] at hlength
  have hstart : before.length ≤ front.length := by
    by_contra hearlier
    have hfront : front ++ ['{', '{'] <+: before ++ '{' :: '{' :: after :=
      ⟨inner ++ '}' :: '}' :: back, by simp [← htag, tagSource]⟩
    have hbefore : before ++ ['{'] <+: before ++ '{' :: '{' :: after := ⟨'{' :: after, by simp⟩
    have hpair : front ++ ['{', '{'] <+: before ++ ['{'] := by
      refine List.prefix_of_prefix_length_le hfront hbefore ?_
      simp only [List.length_append, List.length_cons, List.length_nil]
      omega
    exact hfirst ((List.suffix_append front _).isInfix.trans hpair.isInfix)
  have hend : '}' :: '}' :: back <:+ before ++ '{' :: '{' :: after :=
    ⟨front ++ '{' :: '{' :: inner, by simp [← htag, tagSource]⟩
  have hafter : after <:+ before ++ '{' :: '{' :: after := ⟨before ++ ['{', '{'], by simp⟩
  have hpair : '}' :: '}' :: back <:+ after := by
    refine List.suffix_of_suffix_length_le hend hafter ?_
    simp only [List.length_cons]
    omega
  exact hclose ((List.prefix_append ['}', '}'] back).isInfix.trans hpair.isInfix)

/-- What the front of a template starts with, told by the cuts that are made. -/
inductive Opens (t : Text) : Opening → Prop
  | noPair (hopen : cutAtPair? '{' t = none) : Opens t .unclosed
  | unclosed {before after : Text} (hopen : cutAtPair? '{' t = some (before, after))
    (hclose : cutAtPair? '}' after = none) : Opens t .unclosed
  | nested {before after inner rest lead tail : Text}
    (hopen : cutAtPair? '{' t = some (before, after))
    (hclose : cutAtPair? '}' after = some (inner, rest))
    (hreopen : cutAtPair? '{' inner = some (lead, tail)) :
    Opens t (.nested before lead ('{' :: '{' :: (tail ++ '}' :: '}' :: rest)))
  | tag {before after inner rest : Text} (hopen : cutAtPair? '{' t = some (before, after))
    (hclose : cutAtPair? '}' after = some (inner, rest))
    (hreopen : cutAtPair? '{' inner = none) : Opens t (.tag before inner rest)

theorem opens (t : Text) : Opens t (opening t) := by
  unfold opening
  split
  · next hopen => exact .noPair hopen
  · next hopen =>
    split
    · next hclose => exact .unclosed hopen hclose
    · next hclose =>
      split
      · next hreopen => exact .nested hopen hclose hreopen
      · next hreopen => exact .tag hopen hclose hreopen

namespace Opens
variable {t before inner lead rest : Text}

theorem not_holdsTag_of_unclosed (h : Opens t .unclosed) : ¬ HoldsTag t := by
  cases h with
  | noPair hopen => exact not_holdsTag_of_no_pair (not_infix_of_cutAtPair?_eq_none hopen)
  | unclosed hopen hclose =>
    rw [append_of_cutAtPair? hopen]
    exact not_holdsTag_of_first (not_infix_of_cutAtPair? hopen)
      (not_infix_of_cutAtPair?_eq_none hclose)

/-- What is in front of the later opening pair is in front of the closing pair, too. -/
theorem not_holdsTag_of_nested (h : Opens t (.nested before lead rest)) :
    ¬ HoldsTag (before ++ '{' :: '{' :: lead) := by
  cases h with
  | @nested _ after inner _ _ tail hopen hclose hreopen =>
    refine not_holdsTag_of_first (not_infix_of_cutAtPair? hopen) fun hpair => ?_
    have hlead : lead <+: inner := ⟨'{' :: '{' :: tail, (append_of_cutAtPair? hreopen).symm⟩
    have hinner : inner <+: inner ++ ['}'] := List.prefix_append inner _
    exact not_infix_of_cutAtPair? hclose (hpair.trans (hlead.trans hinner).isInfix)

theorem not_holdsTag_of_tag (h : Opens t (.tag before inner rest)) : ¬ HoldsTag before := by
  cases h with
  | tag hopen hclose hreopen =>
    refine not_holdsTag_of_no_pair fun hpair => ?_
    exact not_infix_of_cutAtPair? hopen (hpair.trans (List.prefix_append _ _).isInfix)

theorem not_pair_of_tag (h : Opens t (.tag before inner rest)) :
    ¬ ['{', '{'] <:+: inner ∧ ¬ ['}', '}'] <:+: inner := by
  cases h with
  | tag hopen hclose hreopen =>
    refine ⟨not_infix_of_cutAtPair?_eq_none hreopen, fun hpair => ?_⟩
    exact not_infix_of_cutAtPair? hclose (hpair.trans (List.prefix_append _ _).isInfix)

theorem exists_of_nested (h : Opens t (.nested before lead rest)) :
    ∃ after, rest = '{' :: '{' :: after := by
  cases h with
  | nested => exact ⟨_, rfl⟩

end Opens

/-- A text holds something and no tag, and a tag holds no pair of braces. -/
def Token.Clean : Token → Prop
  | .text t => t ≠ [] ∧ ¬ HoldsTag t
  | .tag inner => ¬ ['{', '{'] <:+: inner ∧ ¬ ['}', '}'] <:+: inner

theorem clean_of_mem_textToken {t : Text} (ht : ¬ HoldsTag t) : ∀ tok ∈ textToken t, tok.Clean := by
  intro tok htok
  unfold textToken at htok
  split at htok
  · cases htok
  · next hne =>
    obtain rfl := List.mem_singleton.1 htok
    exact ⟨hne, ht⟩

theorem clean_of_mem_tokens (t : Text) : ∀ tok ∈ tokens t, tok.Clean := by
  fun_induction tokens t with
  | case1 t h => exact clean_of_mem_textToken (h ▸ opens t).not_holdsTag_of_unclosed
  | case2 t before lead rest h ih =>
    have htext : before ++ '{' :: '{' :: lead ≠ [] := by simp
    exact List.forall_mem_cons.2 ⟨⟨htext, (h ▸ opens t).not_holdsTag_of_nested⟩, ih⟩
  | case3 t before inner rest h ih =>
    have hopens : Opens t (.tag before inner rest) := h ▸ opens t
    refine List.forall_mem_append.2 ⟨clean_of_mem_textToken hopens.not_holdsTag_of_tag, ?_⟩
    exact List.forall_mem_cons.2 ⟨hopens.not_pair_of_tag, ih⟩

/-- Two texts meet where an opening pair of the first is followed by another one. -/
def Token.Meets : Token → Token → Prop
  | .text t, .text u => ['{', '{'] <:+: t ∧ ['{', '{'] <+: u
  | _, _ => True

/-- What is left in front of an opening pair starts with a tag, or with a text and that pair. -/
theorem meets_head?_tokens {t : Text} (ht : ['{', '{'] <:+: t) (rest : Text) :
    ∀ tok ∈ (tokens ('{' :: '{' :: rest)).head?, (Token.text t).Meets tok := by
  have hopens := opens ('{' :: '{' :: rest)
  have hcut : cutAtPair? '{' ('{' :: '{' :: rest) = some ([], rest) := by simp [cutAtPair?]
  have hpair (u : Text) : ['{', '{'] <+: '{' :: '{' :: u := ⟨u, rfl⟩
  intro tok htok
  cases hopening : opening ('{' :: '{' :: rest) with
  | unclosed =>
    rw [tokens, hopening] at htok
    obtain rfl := Option.some.inj htok
    exact ⟨ht, hpair rest⟩
  | nested before lead after =>
    rw [hopening] at hopens
    cases hopens with
    | nested hopen hclose hreopen =>
      obtain ⟨rfl, -⟩ := Prod.mk.inj (Option.some.inj (hcut.symm.trans hopen))
      rw [tokens, hopening] at htok
      obtain rfl := Option.some.inj htok
      exact ⟨ht, hpair lead⟩
  | tag before inner after =>
    rw [hopening] at hopens
    cases hopens with
    | tag hopen hclose hreopen =>
      obtain ⟨rfl, -⟩ := Prod.mk.inj (Option.some.inj (hcut.symm.trans hopen))
      rw [tokens, hopening] at htok
      obtain rfl := Option.some.inj htok
      trivial

theorem isChain_textToken_append {t inner : Text} {ts : List Token} (h : ts.IsChain Token.Meets) :
    (textToken t ++ .tag inner :: ts).IsChain Token.Meets := by
  have htag : (Token.tag inner :: ts).IsChain Token.Meets :=
    List.isChain_cons.2 ⟨fun _ _ => trivial, h⟩
  unfold textToken
  split
  · exact htag
  · exact List.isChain_cons_cons.2 ⟨trivial, htag⟩

theorem isChain_tokens (t : Text) : (tokens t).IsChain Token.Meets := by
  fun_induction tokens t with
  | case1 t h =>
    unfold textToken
    split
    · exact .nil
    · exact .singleton _
  | case2 t before lead rest h ih =>
    obtain ⟨after, rfl⟩ := (h ▸ opens t : Opens t (.nested before lead rest)).exists_of_nested
    refine List.isChain_cons.2 ⟨meets_head?_tokens ?_ after, ih⟩
    exact ⟨before, lead, by simp⟩
  | case3 t before inner rest h ih =>
    exact isChain_textToken_append ih

/-- Nothing of a template is lost and no tag is left in a text, whatever braces stand in a row.
Texts are not cut but in front of an opening pair. -/
theorem tokens_exhaustive (t : Text) :
    (tokens t).flatMap Token.source = t ∧
    (∀ u, Token.text u ∈ tokens t → u ≠ [] ∧ ¬ HoldsTag u) ∧
    (∀ inner, Token.tag inner ∈ tokens t →
      (Token.tag inner).source = ['{', '{'] ++ inner ++ ['}', '}'] ∧
      ¬ ['{', '{'] <:+: inner ∧ ¬ ['}', '}'] <:+: inner) ∧
    (tokens t).IsChain Token.Meets := by
  refine ⟨flatMap_source_tokens t, ?_, ?_, isChain_tokens t⟩
  · intro u hu
    exact clean_of_mem_tokens t (.text u) hu
  · intro inner hinner
    obtain ⟨hopen, hclose⟩ := clean_of_mem_tokens t (.tag inner) hinner
    exact ⟨rfl, hopen, hclose⟩

/-- Braces in a row: the first two of them open the tag, and the last one is no part of it. -/
theorem tokens_exhaustive_bracesInARow :
    let t := "a\x7b\x7bb\x7b\x7b\x7b c\x7d\x7d\x7d".toList
    tokens t = [.text "a\x7b\x7bb".toList, .tag "\x7b c".toList, .text "\x7d".toList] ∧
      ¬ HoldsTag "a\x7b\x7bb".toList ∧ ¬ ['}', '}'] <:+: "\x7b c".toList := by
  intro t
  have htokens : tokens t =
      [.text "a\x7b\x7bb".toList, .tag "\x7b c".toList, .text "\x7d".toList] := by
    decide +kernel
  obtain ⟨-, htext, htag, -⟩ := tokens_exhaustive t
  exact ⟨htokens, (htext _ (by simp [htokens])).2, (htag _ (by simp [htokens])).2.2⟩

end Template
end ThemedPrompt
