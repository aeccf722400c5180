import Mathlib.Data.List.Chain
import ThemedPrompt.Proofs.Text.Cutting
import ThemedPrompt.Template.Token

/-! # Tokens of a written template

Texts without an opening brace and tags without braces are cut apart again where they were put
together, unless two texts meet.
-/
namespace ThemedPrompt
namespace Template
open Text

/-- A text ends at its first opening brace, and a tag at its first closing pair. -/
def Token.Plain : Token → Prop
  | .text t => t ≠ [] ∧ '{' ∉ t
  | .tag inner => '{' ∉ inner ∧ '}' ∉ inner

/-- Whether there is a brace between two tokens. -/
def Token.Apart : Token → Token → Prop
  | .text _, .text _ => False
  | _, _ => True

/-- Tokens that their joined sources determine. -/
structure Separable (ts : List Token) : Prop where
  plain : ∀ tok ∈ ts, tok.Plain
  apart : ts.IsChain Token.Apart

namespace Separable
variable {tok : Token} {ts us : List Token}

theorem nil : Separable [] := ⟨by simp, .nil⟩

theorem head (h : Separable (tok :: ts)) : tok.Plain := h.plain tok List.mem_cons_self

theorem tail (h : Separable (tok :: ts)) : Separable ts :=
  ⟨fun next hnext => h.plain next (List.mem_cons_of_mem tok hnext), h.apart.tail⟩

theorem cons (htok : tok.Plain) (hnext : ∀ next ∈ ts.head?, tok.Apart next) (h : Separable ts) :
    Separable (tok :: ts) := by
  refine ⟨?_, List.isChain_cons.2 ⟨hnext, h.apart⟩⟩
  intro other hother
  rcases List.mem_cons.1 hother with rfl | hother
  · exact htok
  · exact h.plain other hother

theorem cons_tag {inner : Text} (hinner : (Token.tag inner).Plain) (h : Separable ts) :
    Separable (.tag inner :: ts) :=
  cons hinner (fun _ _ => trivial) h

theorem append_tag {inner : Text} (ht : Separable ts) (hu : Separable (.tag inner :: us)) :
    Separable (ts ++ .tag inner :: us) := by
  constructor
  · intro tok htok
    rcases List.mem_append.1 htok with htok | htok
    · exact ht.plain tok htok
    · exact hu.plain tok htok
  · refine List.isChain_append.2 ⟨ht.apart, hu.apart, ?_⟩
    rintro last - next hnext
    obtain rfl := Option.some.inj hnext
    cases last <;> trivial

end Separable

theorem flatMap_source_textToken (t : Text) : (textToken t).flatMap Token.source = t := by
  unfold textToken
  split
  · simp [*]
  · simp [Token.source]

/-- The tokens of a text are all of it. -/
theorem flatMap_source_tokens (t : Text) : (tokens t).flatMap Token.source = t := by
  fun_induction tokens t with
  | case1 t _ => exact flatMap_source_textToken t
  | case2 t before lead rest h ih => simp [ih, Token.source, eq_of_opening_nested h]
  | case3 t before inner rest h ih =>
    simp [ih, Token.source, eq_of_opening_tag h, flatMap_source_textToken]

theorem opening_of_notMem {t : Text} (ht : '{' ∉ t) : opening t = .unclosed := by
  rw [opening, cutAtPair?_of_notMem ht]

theorem opening_append_tagSource {t inner : Text} (ht : '{' ∉ t) (hopen : '{' ∉ inner)
    (hclose : '}' ∉ inner) (rest : Text) :
    opening (t ++ (tagSource inner ++ rest)) = .tag t inner rest := by
  have hfirst : cutAtPair? '{' (t ++ (tagSource inner ++ rest)) =
      some (t, inner ++ '}' :: '}' :: rest) := by
    simpa [tagSource] using cutAtPair?_append ht (inner ++ '}' :: '}' :: rest)
  rw [opening, hfirst]
  dsimp only
  rw [cutAtPair?_append hclose rest]
  dsimp only
  rw [cutAtPair?_of_notMem hopen]

theorem tokens_of_notMem {t : Text} (ht : '{' ∉ t) : tokens t = textToken t := by
  rw [tokens, opening_of_notMem ht]

theorem tokens_append_tagSource {t inner : Text} (ht : '{' ∉ t) (hopen : '{' ∉ inner)
    (hclose : '}' ∉ inner) (rest : Text) :
    tokens (t ++ (tagSource inner ++ rest)) = textToken t ++ .tag inner :: tokens rest := by
  rw [tokens, opening_append_tagSource ht hopen hclose rest]

theorem tokens_tagSource_append {inner : Text} (hopen : '{' ∉ inner) (hclose : '}' ∉ inner)
    (rest : Text) : tokens (tagSource inner ++ rest) = .tag inner :: tokens rest :=
  tokens_append_tagSource List.not_mem_nil hopen hclose rest

/-- Tokens are read back from their source. -/
theorem tokens_flatMap_source {ts : List Token} (h : Separable ts) :
    tokens (ts.flatMap Token.source) = ts := by
  induction ts with
  | nil => exact tokens_of_notMem List.not_mem_nil
  | cons tok ts ih =>
    have hts := ih h.tail
    cases tok with
    | tag inner =>
      obtain ⟨hopen, hclose⟩ := h.head
      rw [List.flatMap_cons, Token.source, tokens_tagSource_append hopen hclose, hts]
    | text t =>
      obtain ⟨hne, ht⟩ := h.head
      have htext : textToken t = [.text t] := if_neg hne
      cases ts with
      | nil => rw [List.flatMap_singleton, Token.source, tokens_of_notMem ht, htext]
      | cons next ts =>
        cases next with
        | text u => exact (List.isChain_cons_cons.1 h.apart).1.elim
        | tag inner =>
          obtain ⟨hopen, hclose⟩ := h.tail.head
          -- The rest alone starts with the same tag, so that the hypothesis tells its tokens.
          have hrest := tokens_tagSource_append hopen hclose (ts.flatMap Token.source)
          rw [List.flatMap_cons, Token.source] at hts
          rw [List.flatMap_cons, List.flatMap_cons, Token.source, Token.source,
            tokens_append_tagSource ht hopen hclose, ← hrest, hts, htext]
          rfl

end Template
end ThemedPrompt
