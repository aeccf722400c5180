import ThemedPrompt.Prompt
import ThemedPrompt.Proofs.Color.Painted

/-! # Decoding prompts

A rendered prompt decodes to what its segments show, each piece in the colours of its segment, and
leaves the plain style to whatever follows it.
-/
namespace ThemedPrompt
open Sgr

namespace Segment

/-- Whether nothing that a segment may show holds an escape. -/
structure EscFree (s : Segment) (c : Context) (now : Moment) : Prop where
  content : esc ∉ s.content c now
  leadingDiamond : ∀ d ∈ s.leadingDiamond, esc ∉ d
  powerlineSymbol : ∀ d ∈ s.powerlineSymbol, esc ∉ d
  trailingDiamond : ∀ d ∈ s.trailingDiamond, esc ∉ d

instance (s : Segment) (c : Context) (now : Moment) : Decidable (s.EscFree c now) :=
  decidable_of_iff (esc ∉ s.content c now ∧ (∀ d ∈ s.leadingDiamond, esc ∉ d) ∧
      (∀ d ∈ s.powerlineSymbol, esc ∉ d) ∧ ∀ d ∈ s.trailingDiamond, esc ∉ d)
    ⟨fun ⟨h₁, h₂, h₃, h₄⟩ => ⟨h₁, h₂, h₃, h₄⟩, fun ⟨h₁, h₂, h₃, h₄⟩ => ⟨h₁, h₂, h₃, h₄⟩⟩

/-- What a segment with content shows, empty texts left out. The symbol is not shown on the
right side. -/
def runs (s : Segment) (t : Theme) (alignment : Alignment) (c : Context) (now : Moment) :
    List Run :=
  let look : Style :=
    { foreground := seenColor (t.resolve s.foreground)
      background := seenColor (t.resolve s.background) }
  if s.content c now = [] then []
  else
    [s.leadingDiamond.getD [], if alignment = .right then [] else s.powerlineSymbol.getD [],
      s.content c now, s.trailingDiamond.getD []].flatMap (runOf look)

theorem readAs_toList (p : Paint) {d : Option Text} (hd : ∀ u ∈ d, esc ∉ u) :
    Scanner.ReadAs (d.toList.flatMap p.apply) (runOf p.look (d.getD [])) := by
  intro s hs
  cases d with
  | none => rfl
  | some u =>
    have hread := Scanner.foldl_apply hs p (hd u rfl)
    simpa using hread

theorem readAs_part? {s : Segment} {c : Context} {now : Moment} (h : s.EscFree c now) (t : Theme)
    (alignment : Alignment) :
    Scanner.ReadAs ((s.part? t alignment c now).toList.flatMap Part.text)
      (s.runs t alignment c now) := by
  unfold part? runs
  by_cases hcontent : s.content c now = []
  · simp only [hcontent]
    exact fun _ _ => rfl
  · have hlead := readAs_toList (s.paint t) h.leadingDiamond
    have hsymbol : Scanner.ReadAs
        ((if alignment = .right then [] else s.powerlineSymbol.toList).flatMap (s.paint t).apply)
        (runOf (s.paint t).look
          (if alignment = .right then [] else s.powerlineSymbol.getD [])) := by
      by_cases ha : alignment = .right
      · rw [if_pos ha, if_pos ha]
        exact fun _ _ => rfl
      · rw [if_neg ha, if_neg ha]
        exact readAs_toList (s.paint t) h.powerlineSymbol
    have hmiddle : Scanner.ReadAs ((s.paint t).apply (s.content c now))
        (runOf (s.paint t).look (s.content c now)) :=
      fun _ hs => Scanner.foldl_apply hs (s.paint t) h.content
    have htrail := readAs_toList (s.paint t) h.trailingDiamond
    have hall := ((hlead.append hsymbol).append hmiddle).append htrail
    simpa [hcontent, pieces, paint, Paint.look] using hall

end Segment

namespace Block

def runs (b : Block) (t : Theme) (c : Context) (now : Moment) : List Run :=
  b.segments.flatMap (fun s => s.runs t b.alignment c now)
    ++ if b.breaksLine then [⟨['\n'], Style.plain⟩] else []

theorem readAs_text {b : Block} {c : Context} {now : Moment}
    (h : ∀ s ∈ b.segments, s.EscFree c now) (t : Theme) :
    Scanner.ReadAs (b.text t c now) (b.runs t c now) := by
  have hsegments := Scanner.ReadAs.flatMap fun s hs => Segment.readAs_part? (h s hs) t b.alignment
  have hbreak : Scanner.ReadAs (if b.breaksLine then ['\n'] else [])
      (if b.breaksLine then [⟨['\n'], Style.plain⟩] else []) := by
    intro s hs
    split
    · rw [Scanner.foldl_of_notMem_esc hs.pending (by decide)]
      rfl
    · rfl
  rw [text, parts, List.filterMap_eq_flatMap_toList, List.flatMap_assoc]
  exact hsegments.append hbreak

end Block

namespace Prompt

def runs (t : Theme) (blocks : List Block) (c : Context) (now : Moment) : List Run :=
  (blocks.filter Block.isPrompt).flatMap fun b => b.runs t c now

theorem content_ne_nil_of_mem_runs {t : Theme} {blocks : List Block} {c : Context} {now : Moment}
    {r : Run} (hr : r ∈ runs t blocks c now) : r.content ≠ [] := by
  obtain ⟨b, _, hr⟩ := List.mem_flatMap.1 hr
  rcases List.mem_append.1 hr with hr | hr
  · obtain ⟨s, _, hr⟩ := List.mem_flatMap.1 hr
    unfold Segment.runs at hr
    split at hr
    · cases hr
    · obtain ⟨u, _, hr⟩ := List.mem_flatMap.1 hr
      exact content_ne_nil_of_mem_runOf hr
  · split at hr
    · rw [List.mem_singleton.1 hr]
      exact List.cons_ne_nil _ _
    · cases hr

/-- Rendering and decoding are inverse: the prompt is read as what it shows, with neighbours in the
plain style joined, and the style behind it is plain. -/
theorem decode_render {t : Theme} {blocks : List Block} (hblocks : t.blocks = some blocks)
    (fallback : Text) (c : Context) (now : Moment)
    (hfree : ∀ b ∈ blocks, b.isPrompt = true → ∀ s ∈ b.segments, s.EscFree c now) :
    decode (render fallback (some t) c now).text = joinPlain (runs t blocks c now) ∧
      ((render fallback (some t) c now).text.foldl Scanner.step {}).style = Style.plain := by
  have htext : (render fallback (some t) c now).text =
      (blocks.filter Block.isPrompt).flatMap fun b => b.text t c now := by
    simp [render, hblocks, ofBlocks]
  have hread : Scanner.ReadAs (render fallback (some t) c now).text (runs t blocks c now) := by
    rw [htext]
    refine Scanner.ReadAs.flatMap ?_
    intro b hb
    obtain ⟨hmem, hprompt⟩ := List.mem_filter.1 hb
    exact Block.readAs_text (hfree b hmem hprompt) t
  obtain ⟨hdecode, hplain⟩ := decode_of_readAs hread fun r hr => content_ne_nil_of_mem_runs hr
  exact ⟨hdecode, hplain.style⟩

def userAndMark : List Block :=
  [{ kind := "prompt".toList, newline := true,
     segments :=
      [{ kind := .user, foreground := some "#AbCdEf".toList, background := some "red".toList,
         leadingDiamond := some "<".toList, powerlineSymbol := some [] },
        { kind := .text, template := some "at".toList }] },
    { kind := "prompt".toList, alignment := .right,
      segments := [{ kind := .text, template := some "$".toList,
                     powerlineSymbol := some "|".toList }] }]

theorem decode_render_userAndMark :
    (∀ b ∈ userAndMark, b.isPrompt = true → ∀ s ∈ b.segments,
      s.EscFree {} ⟨2024, 3, 7, 14, 5, 9⟩) ∧
    decode (render [] (some { blocks := some userAndMark }) {} ⟨2024, 3, 7, 14, 5, 9⟩).text =
      [⟨"<".toList, { foreground := some "#abcdef".toList }⟩,
        ⟨"user".toList, { foreground := some "#abcdef".toList }⟩,
        ⟨"at\n$".toList, Style.plain⟩] := by
  have hfree : ∀ b ∈ userAndMark, b.isPrompt = true → ∀ s ∈ b.segments,
      s.EscFree {} ⟨2024, 3, 7, 14, 5, 9⟩ := by decide +kernel
  refine ⟨hfree, ?_⟩
  rw [(decode_render (t := { blocks := some userAndMark }) rfl [] {} _ hfree).1]
  decide +kernel

end Prompt
end ThemedPrompt
