import ThemedPrompt.Prompt

/-! # Prompts put together

A prompt is a row of items: the parts of the segments that show something, and the line breaks
behind blocks that end a line. Both its text and its parts are read off this row, and the row of
several blocks is that of each in turn, so that the two never get out of step. What shows nothing
has no items, wherever it stands.
-/
namespace ThemedPrompt

namespace Segment
variable {s : Segment} {c : Context} {now : Moment}

theorem part?_of_content_eq_nil (h : s.content c now = []) (t : Theme) (alignment : Alignment) :
    s.part? t alignment c now = none := by
  unfold part?
  exact if_pos h

theorem content_of_hidden_root (hkind : s.kind = .root) (hroot : c.root = false) :
    s.content c now = [] := by
  have hrecord : s.kind.record? c now = none := by simp [hkind, Kind.record?, hroot]
  rw [content, hrecord]
  rfl

end Segment

namespace Prompt

instance : Append Prompt := ⟨fun p q => ⟨p.text ++ q.text, p.parts ++ q.parts⟩⟩

inductive Item
  | part (p : Part)
  | lineBreak
deriving DecidableEq, Repr

namespace Item

def text : Item → Text
  | .part p => p.text
  | .lineBreak => ['\n']

def part? : Item → Option Part
  | .part p => some p
  | .lineBreak => none

end Item

def ofItems (items : List Item) : Prompt := ⟨items.flatMap Item.text, items.filterMap Item.part?⟩

theorem ofItems_append (front back : List Item) :
    ofItems (front ++ back) = ofItems front ++ ofItems back := by
  simp only [ofItems, List.flatMap_append, List.filterMap_append]
  rfl

theorem ofItems_map_part (parts : List Part) :
    ofItems (parts.map .part) = ⟨parts.flatMap Part.text, parts⟩ := by
  rw [ofItems, List.flatMap_map, List.filterMap_map]
  exact congrArg (Prompt.mk (parts.flatMap Part.text)) List.filterMap_some

/-- Without its line breaks a row shows the texts of its parts and nothing else. -/
theorem flatMap_text_filter (items : List Item) :
    (items.filter (· ≠ .lineBreak)).flatMap Item.text =
      (ofItems items).parts.flatMap Part.text := by
  induction items with
  | nil => rfl
  | cons i items ih =>
    cases i with
    | part p => exact congrArg (p.text ++ ·) ih
    | lineBreak => exact ih

end Prompt

namespace Block
open Prompt
variable (t : Theme) (c : Context) (now : Moment)

/-- The parts of a block, and the line break behind it. A block that is not of a prompt has
neither. -/
def items (b : Block) : List Item :=
  if b.isPrompt then (b.parts t c now).map .part ++ if b.breaksLine then [.lineBreak] else []
  else []

theorem items_of_not_isPrompt {b : Block} (h : b.isPrompt = false) : b.items t c now = [] :=
  if_neg (Bool.eq_false_iff.1 h)

theorem ofItems_items {b : Block} (h : b.isPrompt = true) :
    ofItems (b.items t c now) = ⟨b.text t c now, b.parts t c now⟩ := by
  have hbreak : ofItems (if b.breaksLine then [.lineBreak] else []) =
      ⟨if b.breaksLine then ['\n'] else [], []⟩ := by
    cases b.breaksLine with
    | false => rfl
    | true => rfl
  rw [items, if_pos h, ofItems_append, ofItems_map_part, hbreak]
  exact congrArg (Prompt.mk (b.text t c now)) (List.append_nil _)

theorem parts_append (b : Block) (front back : List Segment) :
    ({ b with segments := front ++ back } : Block).parts t c now =
      ({ b with segments := front } : Block).parts t c now ++
        ({ b with segments := back } : Block).parts t c now :=
  List.filterMap_append

theorem parts_insert (b : Block) {s : Segment} (h : s.content c now = [])
    (front back : List Segment) :
    ({ b with segments := front ++ s :: back } : Block).parts t c now =
      ({ b with segments := front ++ back } : Block).parts t c now := by
  have hback : ({ b with segments := s :: back } : Block).parts t c now =
      ({ b with segments := back } : Block).parts t c now :=
    List.filterMap_cons_none (Segment.part?_of_content_eq_nil h t b.alignment)
  rw [parts_append, parts_append, hback]

theorem items_insert (b : Block) {s : Segment} (h : s.content c now = [])
    (front back : List Segment) :
    ({ b with segments := front ++ s :: back } : Block).items t c now =
      ({ b with segments := front ++ back } : Block).items t c now := by
  unfold items
  rw [parts_insert t c now b h]
  rfl

theorem items_of_not_breaksLine {b : Block} (h : b.breaksLine = false) :
    b.items t c now = if b.isPrompt then (b.parts t c now).map .part else [] := by
  rw [items, h, if_neg Bool.false_ne_true, List.append_nil]

/-- A block that ends no line has the items of its two halves. -/
theorem items_append {b : Block} (hbreak : b.breaksLine = false) (front back : List Segment) :
    ({ b with segments := front ++ back } : Block).items t c now =
      ({ b with segments := front } : Block).items t c now ++
        ({ b with segments := back } : Block).items t c now := by
  -- Each half keeps the alignment and the newline of the block, so neither ends a line.
  have hhalf (segments : List Segment) : ({ b with segments } : Block).items t c now =
      if b.isPrompt then (({ b with segments } : Block).parts t c now).map .part else [] :=
    items_of_not_breaksLine t c now hbreak
  rw [hhalf, hhalf, hhalf, parts_append, List.map_append]
  cases b.isPrompt with
  | false => rfl
  | true => rfl

theorem count_lineBreak_items (b : Block) :
    (b.items t c now).count .lineBreak = if b.isPrompt && b.breaksLine then 1 else 0 := by
  have hparts : ((b.parts t c now).map Item.part).count .lineBreak = 0 :=
    List.count_eq_zero.2 (by simp)
  cases hprompt : b.isPrompt with
  | false => simp [items, hprompt]
  | true =>
    rw [items, if_pos hprompt, List.count_append, hparts]
    cases b.breaksLine with
    | false => rfl
    | true => rfl

end Block

namespace Prompt

def items (t : Theme) (c : Context) (now : Moment) (blocks : List Block) : List Item :=
  blocks.flatMap fun b => b.items t c now

/-- What a theme shows when its blocks are these. -/
def rendered (fallback : Text) (t : Theme) (c : Context) (now : Moment) (blocks : List Block) :
    Prompt :=
  render fallback (some { t with blocks := some blocks }) c now

section
variable (fallback : Text) (t : Theme) (c : Context) (now : Moment)

theorem items_append (front back : List Block) :
    items t c now (front ++ back) = items t c now front ++ items t c now back :=
  List.flatMap_append

theorem items_cons (b : Block) (blocks : List Block) :
    items t c now (b :: blocks) = b.items t c now ++ items t c now blocks :=
  List.flatMap_cons

theorem items_singleton (b : Block) : items t c now [b] = b.items t c now :=
  List.flatMap_singleton _ b

/-- One block more puts its items in front. -/
theorem ofBlocks_cons (b : Block) (blocks : List Block) :
    ofBlocks t (b :: blocks) c now = ofItems (b.items t c now) ++ ofBlocks t blocks c now := by
  cases hprompt : b.isPrompt with
  | false =>
    rw [b.items_of_not_isPrompt t c now hprompt, ofBlocks, List.filter_cons, hprompt]
    rfl
  | true =>
    rw [b.ofItems_items t c now hprompt, ofBlocks, List.filter_cons_of_pos hprompt]
    rfl

theorem ofBlocks_eq_ofItems (blocks : List Block) :
    ofBlocks t blocks c now = ofItems (items t c now blocks) := by
  induction blocks with
  | nil => rfl
  | cons b blocks ih => rw [ofBlocks_cons, ih, ← ofItems_append, items_cons]

theorem rendered_eq_ofItems (blocks : List Block) :
    rendered fallback t c now blocks = ofItems (items t c now blocks) :=
  ofBlocks_eq_ofItems _ c now blocks

/-- Blocks may be put in the place of others that have the same items. -/
theorem rendered_replace {blocks blocks' : List Block}
    (h : items t c now blocks = items t c now blocks') (before after : List Block) :
    rendered fallback t c now (before ++ blocks ++ after) =
      rendered fallback t c now (before ++ blocks' ++ after) := by
  simp only [rendered_eq_ofItems, items_append, h]

theorem count_lineBreak_items (blocks : List Block) :
    (items t c now blocks).count .lineBreak =
      blocks.countP fun b => b.isPrompt && b.breaksLine := by
  induction blocks with
  | nil => rfl
  | cons b blocks ih =>
    rw [items_cons, List.count_append, ih, b.count_lineBreak_items, List.countP_cons]
    omega

end

/-- Prompts are put together block by block and segment by segment. A block that ends no line may
be divided, and what shows nothing may stand anywhere. Without the line breaks, of which there is
one for each block of the prompt that ends a line, the prompt is the texts of its parts. -/
theorem render_composed (fallback : Text) (t : Theme) (c : Context) (now : Moment) :
    (∀ front back : List Block, rendered fallback t c now (front ++ back) =
      rendered fallback t c now front ++ rendered fallback t c now back) ∧
    (∀ (before after : List Block) (b : Block) (front back : List Segment),
      b.breaksLine = false → b.segments = front ++ back →
      rendered fallback t c now
          (before ++ [{ b with segments := front }, { b with segments := back }] ++ after) =
        rendered fallback t c now (before ++ [b] ++ after)) ∧
    (∀ (before after : List Block) (b : Block), b.isPrompt = false →
      rendered fallback t c now (before ++ [b] ++ after) =
        rendered fallback t c now (before ++ after)) ∧
    (∀ (before after : List Block) (b : Block) (front back : List Segment) (s : Segment),
      s.content c now = [] →
      rendered fallback t c now
          (before ++ [{ b with segments := front ++ s :: back }] ++ after) =
        rendered fallback t c now (before ++ [{ b with segments := front ++ back }] ++ after)) ∧
    (∀ s : Segment, s.kind = .root → c.root = false → s.content c now = []) ∧
    (∀ blocks : List Block,
      (rendered fallback t c now blocks).text = (items t c now blocks).flatMap Item.text ∧
      ((items t c now blocks).filter (· ≠ .lineBreak)).flatMap Item.text =
        (rendered fallback t c now blocks).parts.flatMap Part.text ∧
      (items t c now blocks).count .lineBreak =
        blocks.countP fun b => b.isPrompt && b.breaksLine) := by
  refine ⟨?append, ?divide, ?block, ?segment, ?root, ?lineBreaks⟩
  case append =>
    intro front back
    rw [rendered_eq_ofItems, rendered_eq_ofItems, rendered_eq_ofItems, items_append,
      ofItems_append]
  case divide =>
    intro before after b front back hbreak hsegments
    have hb : b = { b with segments := front ++ back } := by rw [← hsegments]
    refine rendered_replace fallback t c now ?_ before after
    rw [items_cons, items_singleton, items_singleton, ← Block.items_append t c now hbreak, ← hb]
  case block =>
    intro before after b hprompt
    have hitems : items t c now [b] = items t c now [] := by
      rw [items_singleton, b.items_of_not_isPrompt t c now hprompt]
      rfl
    rw [rendered_replace fallback t c now hitems before after, List.append_nil]
  case segment =>
    intro before after b front back s hs
    refine rendered_replace fallback t c now ?_ before after
    rw [items_singleton, items_singleton]
    exact b.items_insert t c now hs front back
  case root => exact fun s => Segment.content_of_hidden_root
  case lineBreaks =>
    intro blocks
    rw [rendered_eq_ofItems]
    exact ⟨rfl, flatMap_text_filter _, count_lineBreak_items t c now blocks⟩

def userName : Segment := { kind := .user, foreground := some "#abcdef".toList }

def mark : Segment := { kind := .text, template := some "$".toList }

/-- Much to paint, and nothing to show to those who are not root. -/
def rootOnly : Segment :=
  { kind := .root, background := some "#ff0000".toList, leadingDiamond := some "<".toList,
    powerlineSymbol := some "|".toList, trailingDiamond := some ">".toList }

def ofPrompt (segments : List Segment) : Block := { kind := "prompt".toList, segments }

def aside : Block := { kind := "rprompt".toList, newline := true, segments := [mark] }

/-- A hidden segment and a block of another kind are left out, and the rest is divided. -/
theorem render_composed_rootOnly :
    let shown := rendered [] {} {} ⟨2024, 3, 7, 14, 5, 9⟩
    let painted := "\x1b[38;2;171;205;239muser\x1b[0m".toList
    shown [ofPrompt [userName, rootOnly, mark], aside] =
        shown [ofPrompt [userName]] ++ shown [ofPrompt [mark]] ∧
      shown [ofPrompt [userName, rootOnly, mark], aside] =
        ⟨painted ++ ['$'], [⟨"user".toList, painted, ⟨some "#abcdef".toList, none⟩⟩,
          ⟨"text".toList, ['$'], ⟨none, none⟩⟩]⟩ := by
  intro shown painted
  obtain ⟨happend, hdivide, hblock, hsegment, hroot, -⟩ :=
    render_composed [] {} {} ⟨2024, 3, 7, 14, 5, 9⟩
  have hhidden : rootOnly.content {} ⟨2024, 3, 7, 14, 5, 9⟩ = [] := hroot rootOnly rfl rfl
  have hparted : shown [ofPrompt [userName, rootOnly, mark], aside] =
      shown [ofPrompt [userName]] ++ shown [ofPrompt [mark]] := calc
    _ = shown [ofPrompt [userName, rootOnly, mark]] :=
      hblock [ofPrompt [userName, rootOnly, mark]] [] aside (by decide)
    _ = shown [ofPrompt [userName, mark]] :=
      hsegment [] [] (ofPrompt []) [userName] [mark] rootOnly hhidden
    _ = shown [ofPrompt [userName], ofPrompt [mark]] :=
      (hdivide [] [] (ofPrompt [userName, mark]) [userName] [mark] rfl rfl).symm
    _ = shown [ofPrompt [userName]] ++ shown [ofPrompt [mark]] :=
      happend [ofPrompt [userName]] [ofPrompt [mark]]
  refine ⟨hparted, ?_⟩
  rw [hparted]
  decide +kernel

end Prompt
end ThemedPrompt
