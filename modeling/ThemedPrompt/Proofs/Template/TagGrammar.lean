import Mathlib.Data.List.TakeWhile
import ThemedPrompt.Proofs.Template.TagSyntax

/-! # The grammar of tags

A tag is read just when it is written in one of four forms, and then in one way: the blanks, the gap
and the names are determined by the text. As no text has two forms, it is all the same in which
order the forms are tried.
-/
namespace ThemedPrompt
namespace Template
open Text

/-- What a tag is without the blanks at its two ends. -/
inductive Wording
  | field (p : Path) (named : p.Named)
  | conditional (gap : Text) (p : Path) (apart : gap ≠ []) (blank : Blanks gap) (named : p.Named)
  | elseTag
  | endTag

/-- How the text between the braces of a tag is put together. -/
structure Layout where
  left : Text
  wording : Wording
  right : Text
  blankLeft : Blanks left
  blankRight : Blanks right

inductive Form
  | field
  | conditional
  | elseTag
  | endTag
deriving DecidableEq, Repr

/-- Tries one form alone. -/
def Form.readBody? : Form → Text → Option Tag
  | .field, body => (Path.ofText? body).map .field
  | .conditional, body => (condition? body).map .ifTag
  | .elseTag, body => if body = "else".toList then some .elseTag else none
  | .endTag, body => if body = "end".toList then some .endTag else none

def Form.read? (f : Form) (inner : Text) : Option Tag := f.readBody? (trim inner)

/-- The tag by the first of the forms that fits. -/
def readInOrder (order : List Form) (inner : Text) : Tag :=
  (order.findSome? (·.read? inner)).getD .unknown

theorem Path.exists_of_ofText? {t : Text} {p : Path} (h : ofText? t = some p) :
    p.Named ∧ p.source = t := by
  unfold ofText? at h
  split at h
  · next names =>
    have hjoin := join_splitBy '.' names
    split at h
    · next name hsplit =>
      split at h
      · next hname =>
        obtain rfl := Option.some.inj h
        rw [hsplit, join] at hjoin
        exact ⟨⟨hname, by simp⟩, by simp [source, hjoin]⟩
      · cases h
    · next name member hsplit =>
      split at h
      · next hnames =>
        obtain rfl := Option.some.inj h
        obtain ⟨hname, hmember⟩ := Bool.and_eq_true_iff.1 hnames
        rw [hsplit, join, join] at hjoin
        exact ⟨⟨hname, by simpa using hmember⟩, by simp [source, ← hjoin]⟩
      · cases h
    · cases h
  · cases h

theorem Path.source_injective {p q : Path} (hp : p.Named) (hq : q.Named)
    (h : p.source = q.source) : p = q := by
  have hread := ofText?_source hp
  rw [h, ofText?_source hq] at hread
  exact (Option.some.inj hread).symm

theorem exists_of_condition? {body : Text} {p : Path} (h : condition? body = some p) :
    p.Named ∧ ∃ gap, gap ≠ [] ∧ Blanks gap ∧ 'i' :: 'f' :: (gap ++ p.source) = body := by
  unfold condition? at h
  split at h
  · next c rest hafter =>
    split at h
    · next hc =>
      obtain ⟨hp, hsource⟩ := Path.exists_of_ofText? h
      refine ⟨hp, c :: rest.takeWhile isBlank, List.cons_ne_nil _ _, ?_, ?_⟩
      · exact List.forall_mem_cons.2 ⟨hc, fun d hd => List.mem_takeWhile_imp hd⟩
      · rw [hsource, List.cons_append, List.takeWhile_append_dropWhile, append_of_after? hafter]
        rfl
    · cases h
  · cases h

namespace Wording

def source : Wording → Text
  | .field p _ => p.source
  | .conditional gap p _ _ _ => 'i' :: 'f' :: (gap ++ p.source)
  | .elseTag => "else".toList
  | .endTag => "end".toList

def tag : Wording → Tag
  | .field p _ => .field p
  | .conditional _ p _ _ _ => .ifTag p
  | .elseTag => .elseTag
  | .endTag => .endTag

def form : Wording → Form
  | .field _ _ => .field
  | .conditional _ _ _ _ _ => .conditional
  | .elseTag => .elseTag
  | .endTag => .endTag

theorem source_ne_nil (w : Wording) : w.source ≠ [] := by
  cases w with
  | field p named => exact p.source_ne_nil
  | conditional | elseTag | endTag => exact List.cons_ne_nil _ _

theorem isBlank_head? (w : Wording) : ∀ c ∈ w.source.head?, isBlank c = false := by
  cases w with
  | field p named => exact fun c hc => Path.isBlank_of_mem_source named (List.mem_of_head? hc)
  | conditional | elseTag | endTag =>
    rintro c ⟨⟩
    decide

theorem isBlank_getLast? (w : Wording) : ∀ c ∈ w.source.getLast?, isBlank c = false := by
  cases w with
  | field p named => exact fun c hc => Path.isBlank_of_mem_source named (List.mem_of_getLast? hc)
  | conditional gap p apart blank named => exact Path.isBlank_getLast? named ('i' :: 'f' :: gap)
  | elseTag | endTag =>
    rintro c ⟨⟩
    decide

theorem readBody?_source (w : Wording) : w.form.readBody? w.source = some w.tag := by
  cases w with
  | field p named => simp [form, Form.readBody?, source, tag, Path.ofText?_source named]
  | conditional gap p apart blank named =>
    simp [form, Form.readBody?, source, tag, condition?_append named apart blank]
  | elseTag => rfl
  | endTag => rfl

/-- The blanks behind `if` end where the dot of the path stands. -/
theorem gap_injective {gap gap' : Text} {p q : Path} (hgap : Blanks gap) (hgap' : Blanks gap')
    (hp : p.Named) (hq : q.Named) (h : gap ++ p.source = gap' ++ q.source) : gap = gap' ∧ p = q := by
  have hdot (r : Path) : ∀ c ∈ r.source.head?, isBlank c = false := by
    rintro c ⟨⟩
    decide
  obtain ⟨hspan, -⟩ := span_append hgap (hdot p)
  obtain ⟨hspan', -⟩ := span_append hgap' (hdot q)
  obtain rfl : gap = gap' := by rw [← hspan, h, hspan']
  exact ⟨rfl, Path.source_injective hp hq (List.append_cancel_left h)⟩

/-- A dot, `i`, `el` and `en` tell the forms apart. -/
theorem source_injective {w v : Wording} (h : w.source = v.source) : w = v := by
  cases w with
  | field p named =>
    cases v with
    | field q named' =>
      obtain rfl := Path.source_injective named named' h
      rfl
    | conditional | elseTag | endTag => cases h
  | conditional gap p apart blank named =>
    cases v with
    | conditional gap' q apart' blank' named' =>
      have htail : gap ++ p.source = gap' ++ q.source := (List.cons.inj (List.cons.inj h).2).2
      obtain ⟨rfl, rfl⟩ := gap_injective blank blank' named named' htail
      rfl
    | field | elseTag | endTag => cases h
  | elseTag =>
    cases v with
    | elseTag => rfl
    | field | conditional | endTag => cases h
  | endTag =>
    cases v with
    | endTag => rfl
    | field | conditional | elseTag => cases h

end Wording

/-- One form takes the wordings of that form and nothing else. -/
theorem Form.readBody?_eq_some_iff {f : Form} {body : Text} {tag : Tag} :
    f.readBody? body = some tag ↔ ∃ w : Wording, w.source = body ∧ w.form = f ∧ w.tag = tag := by
  constructor
  · intro h
    cases f with
    | field =>
      obtain ⟨p, hp, rfl⟩ := Option.map_eq_some_iff.1 h
      obtain ⟨named, hsource⟩ := Path.exists_of_ofText? hp
      exact ⟨.field p named, hsource, rfl, rfl⟩
    | conditional =>
      obtain ⟨p, hp, rfl⟩ := Option.map_eq_some_iff.1 h
      obtain ⟨named, gap, apart, blank, hsource⟩ := exists_of_condition? hp
      exact ⟨.conditional gap p apart blank named, hsource, rfl, rfl⟩
    | elseTag =>
      obtain ⟨rfl, htag⟩ := Option.ite_none_right_eq_some.1 h
      exact ⟨.elseTag, rfl, rfl, Option.some.inj htag⟩
    | endTag =>
      obtain ⟨rfl, htag⟩ := Option.ite_none_right_eq_some.1 h
      exact ⟨.endTag, rfl, rfl, Option.some.inj htag⟩
  · rintro ⟨w, rfl, rfl, rfl⟩
    exact w.readBody?_source

namespace Layout

def source (l : Layout) : Text := l.left ++ (l.wording.source ++ l.right)

def tag (l : Layout) : Tag := l.wording.tag

theorem trim_source (l : Layout) : trim l.source = l.wording.source :=
  trim_append l.blankLeft l.blankRight l.wording.source_ne_nil l.wording.isBlank_head?
    l.wording.isBlank_getLast?

theorem tag_ne_unknown (l : Layout) : l.tag ≠ .unknown := by
  rw [tag]
  cases l.wording <;> exact Tag.noConfusion

/-- No text is put together in two ways. -/
theorem source_injective : Function.Injective source := by
  intro l k h
  have hwording : l.wording = k.wording := by
    refine Wording.source_injective ?_
    rw [← l.trim_source, ← k.trim_source, h]
  obtain ⟨left, w, right, hleft, hright⟩ := l
  obtain ⟨left', w', right', hleft', hright'⟩ := k
  dsimp only at hwording
  subst hwording
  have hfirst (t : Text) : ∀ c ∈ (w.source ++ t).head?, isBlank c = false := by
    intro c hc
    rw [List.head?_append, List.head?_eq_some_head w.source_ne_nil, Option.some_or,
      ← List.head?_eq_some_head w.source_ne_nil] at hc
    exact w.isBlank_head? c hc
  obtain ⟨hspan, -⟩ := span_append hleft (hfirst right)
  obtain ⟨hspan', -⟩ := span_append hleft' (hfirst right')
  change left ++ (w.source ++ right) = left' ++ (w.source ++ right') at h
  obtain rfl : left = left' := by rw [← hspan, h, hspan']
  obtain rfl : right = right' := List.append_cancel_left (List.append_cancel_left h)
  rfl

end Layout

theorem exists_eq_append_trim (t : Text) :
    ∃ left right, Blanks left ∧ Blanks right ∧ t = left ++ (trim t ++ right) := by
  let start := t.dropWhile isBlank
  refine ⟨t.takeWhile isBlank, (start.reverse.takeWhile isBlank).reverse, ?_, ?_, ?_⟩
  · exact fun c hc => List.mem_takeWhile_imp hc
  · exact fun c hc => List.mem_takeWhile_imp (List.mem_reverse.1 hc)
  · have hstart : trim t ++ (start.reverse.takeWhile isBlank).reverse = start := by
      rw [trim, trimBy, dropEnd, ← List.reverse_append, List.takeWhile_append_dropWhile,
        List.reverse_reverse]
    rw [hstart, List.takeWhile_append_dropWhile]

/-- The blanks at the two ends may be any. -/
theorem exists_layout_iff {P : Wording → Prop} {inner : Text} :
    (∃ l : Layout, l.source = inner ∧ P l.wording) ↔
      ∃ w : Wording, w.source = trim inner ∧ P w := by
  constructor
  · rintro ⟨l, rfl, hl⟩
    exact ⟨l.wording, l.trim_source.symm, hl⟩
  · rintro ⟨w, hw, hP⟩
    obtain ⟨left, right, hleft, hright, hinner⟩ := exists_eq_append_trim inner
    exact ⟨⟨left, w, right, hleft, hright⟩, by rw [Layout.source, hw, ← hinner], hP⟩

theorem Form.read?_eq_some_iff {f : Form} {inner : Text} {tag : Tag} :
    f.read? inner = some tag ↔
      ∃ l : Layout, l.source = inner ∧ l.wording.form = f ∧ l.tag = tag := by
  rw [Form.read?, Form.readBody?_eq_some_iff]
  exact (exists_layout_iff (P := fun w => w.form = f ∧ w.tag = tag)).symm

/-- Two forms that take the same text are one. -/
theorem Form.read?_exclusive {f g : Form} {inner : Text} {tag tag' : Tag}
    (h : f.read? inner = some tag) (h' : g.read? inner = some tag') : f = g ∧ tag = tag' := by
  obtain ⟨l, hl, rfl, rfl⟩ := Form.read?_eq_some_iff.1 h
  obtain ⟨k, rfl, rfl, rfl⟩ := Form.read?_eq_some_iff.1 h'
  obtain rfl := Layout.source_injective hl
  exact ⟨rfl, rfl⟩

theorem ofInner_eq_readInOrder (inner : Text) :
    Tag.ofInner inner = readInOrder [.field, .conditional, .elseTag, .endTag] inner := by
  simp only [Tag.ofInner, readInOrder, List.findSome?_cons, List.findSome?_nil, Form.read?,
    Form.readBody?]
  cases Path.ofText? (trim inner) with
  | some p => rfl
  | none =>
    cases condition? (trim inner) with
    | some p => rfl
    | none =>
      dsimp only [Option.map_none]
      split
      · rfl
      · split <;> rfl

/-- What the first form that fits gives is what any other one would give. -/
theorem readInOrder_eq_of_read? {order : List Form} (hall : ∀ f, f ∈ order) {f : Form}
    {inner : Text} {tag : Tag} (h : f.read? inner = some tag) : readInOrder order inner = tag := by
  rw [readInOrder]
  cases hfirst : order.findSome? (·.read? inner) with
  | none =>
    have hnone := List.findSome?_eq_none_iff.1 hfirst f (hall f)
    cases h.symm.trans hnone
  | some tag' =>
    obtain ⟨g, -, hg⟩ := List.exists_of_findSome?_eq_some hfirst
    exact (Form.read?_exclusive hg h).2

theorem readInOrder_of_read?_eq_none {inner : Text} (h : ∀ f : Form, f.read? inner = none)
    (order : List Form) : readInOrder order inner = .unknown := by
  rw [readInOrder, List.findSome?_eq_none_iff.2 fun f _ => h f]
  rfl

theorem readInOrder_congr {order order' : List Form} (hall : ∀ f, f ∈ order)
    (hall' : ∀ f, f ∈ order') (inner : Text) :
    readInOrder order inner = readInOrder order' inner := by
  by_cases h : ∃ (f : Form) (tag : Tag), f.read? inner = some tag
  · obtain ⟨f, tag, h⟩ := h
    rw [readInOrder_eq_of_read? hall h, readInOrder_eq_of_read? hall' h]
  · have hnone (f : Form) : f.read? inner = none :=
      Option.eq_none_iff_forall_ne_some.2 fun tag hf => h ⟨f, tag, hf⟩
    rw [readInOrder_of_read?_eq_none hnone, readInOrder_of_read?_eq_none hnone]

theorem readInOrder_eq_ofInner {order : List Form} (hall : ∀ f, f ∈ order) (inner : Text) :
    readInOrder order inner = Tag.ofInner inner := by
  rw [ofInner_eq_readInOrder]
  refine readInOrder_congr hall (fun f => ?_) inner
  cases f <;> decide

namespace Tag
variable {inner : Text}

theorem ofInner_source (l : Layout) : Tag.ofInner l.source = l.tag := by
  rw [ofInner_eq_readInOrder]
  refine readInOrder_eq_of_read? (f := l.wording.form) (fun f => ?_) ?_
  · cases f <;> decide
  · exact Form.read?_eq_some_iff.2 ⟨l, rfl, rfl, rfl⟩

theorem exists_layout_of_ofInner (h : Tag.ofInner inner ≠ .unknown) :
    ∃ l : Layout, l.source = inner := by
  by_contra hnone
  refine h ?_
  rw [ofInner_eq_readInOrder]
  refine readInOrder_of_read?_eq_none (fun f => Option.eq_none_iff_forall_ne_some.2 fun tag hf => ?_) _
  obtain ⟨l, hl, -, -⟩ := Form.read?_eq_some_iff.1 hf
  exact hnone ⟨l, hl⟩

theorem isWritten_iff {tag : Tag} : tag.IsWritten inner ↔ ∃ l : Layout, l.source = inner ∧ l.tag = tag := by
  constructor
  · intro h
    cases tag with
    | field p =>
      obtain ⟨named, left, right, hleft, hright, rfl⟩ := h
      exact ⟨⟨left, .field p named, right, hleft, hright⟩, rfl, rfl⟩
    | ifTag p =>
      obtain ⟨named, gap, apart, blank, left, right, hleft, hright, rfl⟩ := h
      exact ⟨⟨left, .conditional gap p apart blank named, right, hleft, hright⟩, rfl, rfl⟩
    | elseTag =>
      obtain ⟨left, right, hleft, hright, rfl⟩ := h
      exact ⟨⟨left, .elseTag, right, hleft, hright⟩, rfl, rfl⟩
    | endTag =>
      obtain ⟨left, right, hleft, hright, rfl⟩ := h
      exact ⟨⟨left, .endTag, right, hleft, hright⟩, rfl, rfl⟩
    | unknown => exact h.elim
  · rintro ⟨⟨left, w, right, hleft, hright⟩, rfl, rfl⟩
    cases w with
    | field p named => exact ⟨named, left, right, hleft, hright, rfl⟩
    | conditional gap p apart blank named =>
      exact ⟨named, gap, apart, blank, left, right, hleft, hright, rfl⟩
    | elseTag => exact ⟨left, right, hleft, hright, rfl⟩
    | endTag => exact ⟨left, right, hleft, hright, rfl⟩

/-- What is written as a tag is read as that tag. -/
theorem ofInner_of_isWritten {tag : Tag} (h : tag.IsWritten inner) : Tag.ofInner inner = tag := by
  obtain ⟨l, rfl, rfl⟩ := isWritten_iff.1 h
  exact ofInner_source l

/-- What stands between braces is a tag just when it is put together as one, and then in a single
way. No two forms take the same text, so they may be tried in any order. -/
theorem ofInner_eq_iff_exists_layout (inner : Text) :
    (∀ tag, tag ≠ .unknown →
      (Tag.ofInner inner = tag ↔ ∃ l : Layout, l.source = inner ∧ l.tag = tag)) ∧
    (Tag.ofInner inner = .unknown ↔ ∀ l : Layout, l.source ≠ inner) ∧
    (∀ l k : Layout, l.source = inner → k.source = inner → l = k) ∧
    (∀ (f g : Form) (tag tag' : Tag),
      f.read? inner = some tag → g.read? inner = some tag' → f = g ∧ tag = tag') ∧
    ∀ order : List Form, (∀ f, f ∈ order) → readInOrder order inner = Tag.ofInner inner := by
  refine ⟨fun tag htag => ⟨fun h => ?_, ?_⟩, ⟨fun h l hl => ?_, fun h => ?_⟩, fun l k hl hk => ?_,
    fun f g tag tag' => Form.read?_exclusive, fun order hall => readInOrder_eq_ofInner hall inner⟩
  · obtain ⟨l, rfl⟩ := exists_layout_of_ofInner (h ▸ htag)
    exact ⟨l, rfl, (ofInner_source l).symm.trans h⟩
  · rintro ⟨l, rfl, rfl⟩
    exact ofInner_source l
  · rw [← hl, ofInner_source] at h
    exact l.tag_ne_unknown h
  · by_contra hknown
    obtain ⟨l, hl⟩ := exists_layout_of_ofInner hknown
    exact h l hl
  · exact Layout.source_injective (hl.trans hk.symm)

/-- A wide blank is gap enough, and keywords are names like any other. -/
theorem ofInner_eq_iff_exists_layout_keywords :
    let inner := "\tif\u3000.if.end\n".toList
    let p : Path := ⟨"if".toList, some "end".toList⟩
    Tag.ofInner inner = .ifTag p ∧
      readInOrder [.endTag, .elseTag, .conditional, .field] inner = .ifTag p := by
  intro inner p
  let l : Layout := ⟨['\t'], .conditional ['\u3000'] p (by decide) (by decide) (by decide), ['\n'],
    by decide, by decide⟩
  obtain ⟨hread, -, -, -, horder⟩ := ofInner_eq_iff_exists_layout inner
  have htag : Tag.ofInner inner = .ifTag p := (hread (.ifTag p) (by decide)).2 ⟨l, by decide, rfl⟩
  exact ⟨htag, (horder _ (fun f => by cases f <;> decide)).trans htag⟩

end Tag
end Template
end ThemedPrompt
