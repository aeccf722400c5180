import Mathlib.Logic.Relation
import ThemedPrompt.Theme.Document

/-! # Lenient reading

A field whose value does not fit its type is read like a field that is not there, whether it is one
of the theme, of a block or of a segment. Of the items of a list those are kept that can stand for
a block or a segment at all, each read by itself.
-/
namespace ThemedPrompt

inductive FieldType
  | text
  | alignment
  | flag
  | list
  | record
deriving DecidableEq, Repr

/-- An alignment is a name, or a record that holds null under a name. -/
def FieldType.Fits : FieldType → Document → Prop
  | .text, d => ∃ t, d = .text t
  | .alignment, d => (∃ name, d = .text name) ∨ ∃ name, d = .record [(name, .null)]
  | .flag, d => ∃ b, d = .bool b
  | .list, d => ∃ items, d = .list items
  | .record, d => ∃ entries, d = .record entries

/-- The fields of a theme but its version, which may be of any type. -/
def Theme.fieldTypes : List (Text × FieldType) :=
  [("blocks".toList, .list), ("palette".toList, .record)]

def Block.fieldTypes : List (Text × FieldType) :=
  [("type".toList, .text), ("alignment".toList, .alignment), ("newline".toList, .flag),
    ("segments".toList, .list)]

def Segment.fieldTypes : List (Text × FieldType) := Segment.fieldNames.map (·, .text)

namespace Document

def without (name : Text) (entries : List (Text × Document)) : List (Text × Document) :=
  entries.filter fun entry => entry.1 ≠ name

/-- A record with a field that does not fit, and the record without this field. -/
inductive DropsMisfit (types : List (Text × FieldType)) : Document → Document → Prop
  | drop {name : Text} {type : FieldType} {value : Document} {entries : List (Text × Document)}
      (htype : types.lookup name = some type) (hvalue : get? name (.record entries) = some value)
      (hmisfit : ¬ type.Fits value) : DropsMisfit types (.record entries) (.record (without name entries))

end Document

/-- Two blocks that differ in a field that does not fit: one of their own, or one of a segment
object in a block object or in a block that is a list. -/
inductive Block.DropsMisfit : Document → Document → Prop
  | field {d d' : Document} (h : Document.DropsMisfit Block.fieldTypes d d') : DropsMisfit d d'
  | segment {d d' : Document} (before after : List Document) (front back : List (Text × Document))
      (h : Document.DropsMisfit Segment.fieldTypes d d') :
      DropsMisfit (.record (front ++ ("segments".toList, .list (before ++ d :: after)) :: back))
        (.record (front ++ ("segments".toList, .list (before ++ d' :: after)) :: back))
  | listed {d d' : Document} (before after : List Document) (kind alignment newline : Document)
      (h : Document.DropsMisfit Segment.fieldTypes d d') :
      DropsMisfit (.list [kind, alignment, newline, .list (before ++ d :: after)])
        (.list [kind, alignment, newline, .list (before ++ d' :: after)])

inductive Theme.DropsMisfit : Document → Document → Prop
  | field {d d' : Document} (h : Document.DropsMisfit Theme.fieldTypes d d') : DropsMisfit d d'
  | block {d d' : Document} (before after : List Document) (front back : List (Text × Document))
      (h : Block.DropsMisfit d d') :
      DropsMisfit (.record (front ++ ("blocks".toList, .list (before ++ d :: after)) :: back))
        (.record (front ++ ("blocks".toList, .list (before ++ d' :: after)) :: back))

section
variable {α : Type} {types : List (Text × FieldType)} {entries : List (Text × Document)}
variable {name key : Text}

theorem lookup_cons_of_ne (h : key ≠ name) (d : Document) :
    ((name, d) :: entries).lookup key = entries.lookup key := by
  rw [List.lookup_cons, beq_false_of_ne h]

theorem lookup_without_self : (Document.without name entries).reverse.lookup name = none := by
  refine List.lookup_eq_none_iff.2 ?_
  intro entry hentry
  have hne := (List.mem_filter.1 (List.mem_reverse.1 hentry)).2
  exact bne_iff_ne.2 (Ne.symm (of_decide_eq_true hne))

theorem lookup_without_of_ne (h : key ≠ name) :
    (Document.without name entries).reverse.lookup key = entries.reverse.lookup key := by
  rw [Document.without, ← List.filter_reverse]
  induction entries.reverse with
  | nil => rfl
  | cons entry rest ih =>
    obtain ⟨other, d⟩ := entry
    by_cases hother : other = name
    · rw [List.filter_cons_of_neg (by simpa using hother), ih, hother, lookup_cons_of_ne h]
    · rw [List.filter_cons_of_pos (by simpa using hother), List.lookup_cons, List.lookup_cons, ih]

/-- Putting one value in the place of another changes nothing for a field of another name, nor for
one that reads both alike. -/
theorem lenient_replace (field : String) (read : Document → Option α) {d d' : Document}
    (h : field.toList = name → read d' = read d) (front back : List (Text × Document)) (default : α) :
    lenient (front ++ (name, d') :: back) field read default =
      lenient (front ++ (name, d) :: back) field read default := by
  simp only [lenient, List.reverse_append, List.reverse_cons, List.lookup_append]
  by_cases hname : field.toList = name
  · subst hname
    cases back.reverse.lookup field.toList with
    | none => simp [h rfl]
    | some found => rfl
  · rw [lookup_cons_of_ne hname, lookup_cons_of_ne hname]

theorem lenient_without_of_ne {field : String} (h : field.toList ≠ name)
    (read : Document → Option α) (default : α) :
    lenient (Document.without name entries) field read default = lenient entries field read default := by
  rw [lenient, lenient, lookup_without_of_ne h]

/-- A reader that gives at most the default for a value that does not fit. -/
def FieldType.ReadBy (type : FieldType) (read : Document → Option α) (default : α) : Prop :=
  ∀ d, ¬ type.Fits d → (read d).getD default = default

theorem readBy_text (f : Text → α) (default : α) :
    FieldType.text.ReadBy (fun d => d.text?.map f) default := by
  intro d hd
  cases d with
  | text t => exact absurd ⟨t, rfl⟩ hd
  | _ => rfl

theorem readBy_alignment (default : Alignment) :
    FieldType.alignment.ReadBy Alignment.ofDocument? default := by
  intro d hd
  unfold Alignment.ofDocument?
  split
  · exact absurd (.inl ⟨_, rfl⟩) hd
  · exact absurd (.inr ⟨_, rfl⟩) hd
  · rfl

theorem readBy_flag (default : Bool) : FieldType.flag.ReadBy Document.bool? default := by
  intro d hd
  cases d with
  | bool b => exact absurd ⟨b, rfl⟩ hd
  | _ => rfl

theorem itemsOf?_of_misfit {d : Document} (hd : ¬ FieldType.list.Fits d)
    (read : Document → Option α) : itemsOf? read d = none := by
  cases d with
  | list items => exact absurd ⟨items, rfl⟩ hd
  | _ => rfl

theorem readBy_list (read : Document → Option α) (default : List α) :
    FieldType.list.ReadBy (itemsOf? read) default := by
  intro d hd
  rw [itemsOf?_of_misfit hd]
  rfl

/-- A field that may be absent has no default but its absence. -/
theorem readBy_optional {type : FieldType} {read : Document → Option α}
    (h : ∀ d, ¬ type.Fits d → read d = none) : type.ReadBy (fun d => some (read d)) none :=
  h

theorem paletteOf?_of_misfit {d : Document} (hd : ¬ FieldType.record.Fits d) :
    Theme.paletteOf? d = none := by
  cases d with
  | record entries => exact absurd ⟨entries, rfl⟩ hd
  | _ => rfl

/-- With and without a value that does not fit, every field reads the same. -/
theorem lenient_without (field : String) {type fieldType : FieldType} {value : Document}
    {read : Document → Option α} {default : α} (htype : types.lookup name = some type)
    (hvalue : Document.get? name (.record entries) = some value) (hmisfit : ¬ type.Fits value)
    (hfield : types.lookup field.toList = some fieldType) (hread : fieldType.ReadBy read default) :
    lenient (Document.without name entries) field read default = lenient entries field read default := by
  by_cases hname : field.toList = name
  · subst hname
    obtain rfl : fieldType = type := Option.some.inj (hfield.symm.trans htype)
    have hlookup : entries.reverse.lookup field.toList = some value := hvalue
    rw [lenient, lenient, lookup_without_self, hlookup, Option.bind_some, hread value hmisfit]
    rfl
  · exact lenient_without_of_ne hname read default

theorem entries?_record (fields : List Text) (entries : List (Text × Document)) :
    Document.entries? .entries fields (.record entries) = some entries := by
  rw [Document.entries?, if_pos (Or.inl rfl)]

theorem itemsOf?_replace {read : Document → Option α} {d d' : Document} (h : read d' = read d)
    (before after : List Document) :
    itemsOf? read (.list (before ++ d' :: after)) = itemsOf? read (.list (before ++ d :: after)) := by
  simp only [itemsOf?, List.filterMap_append, List.filterMap_cons, h]

end

section
variable {d d' : Document}

theorem Segment.ofDocument?_dropsMisfit (h : Document.DropsMisfit fieldTypes d d') :
    ofDocument? d' = ofDocument? d := by
  obtain @⟨name, type, value, entries, htype, hvalue, hmisfit⟩ := h
  have htext : ∀ field : String, fieldTypes.lookup field.toList = some .text →
      ∀ {β : Type} (f : Text → β) (default : β),
        lenient (Document.without name entries) field (fun d => d.text?.map f) default =
          lenient entries field (fun d => d.text?.map f) default := by
    intro field hfield β f default
    exact lenient_without field htype hvalue hmisfit hfield (readBy_text f default)
  simp only [ofDocument?, entries?_record, Option.map_some, htext "type" rfl,
    htext "template" rfl, htext "foreground" rfl, htext "background" rfl,
    htext "leading_diamond" rfl, htext "trailing_diamond" rfl, htext "powerline_symbol" rfl]

/-- The block that a record's entries stand for. -/
def Block.ofEntries (entries : List (Text × Document)) : Block where
  kind := lenient entries "type" Document.text? []
  alignment := lenient entries "alignment" Alignment.ofDocument? .left
  newline := lenient entries "newline" Document.bool? false
  segments := lenient entries "segments" (itemsOf? Segment.ofDocument?) []

theorem Block.ofDocument?_eq (d : Document) :
    ofDocument? d = (d.entries? .entries fieldNames).map ofEntries :=
  rfl

theorem Block.ofEntries_replace (h : Segment.ofDocument? d' = Segment.ofDocument? d)
    (before after : List Document) (front back : List (Text × Document)) :
    ofEntries (front ++ ("segments".toList, .list (before ++ d' :: after)) :: back) =
      ofEntries (front ++ ("segments".toList, .list (before ++ d :: after)) :: back) := by
  simp only [ofEntries]
  rw [lenient_replace "type" _ (fun h => absurd h (by decide)),
    lenient_replace "alignment" _ (fun h => absurd h (by decide)),
    lenient_replace "newline" _ (fun h => absurd h (by decide)),
    lenient_replace "segments" _ (fun _ => itemsOf?_replace h before after)]

theorem Block.ofDocument?_dropsMisfit (h : DropsMisfit d d') : ofDocument? d' = ofDocument? d := by
  cases h with
  | field h =>
    obtain @⟨name, type, value, entries, htype, hvalue, hmisfit⟩ := h
    have hkind := lenient_without "type" htype hvalue hmisfit rfl (readBy_text id [])
    have halignment := lenient_without "alignment" htype hvalue hmisfit rfl (readBy_alignment .left)
    have hnewline := lenient_without "newline" htype hvalue hmisfit rfl (readBy_flag false)
    have hsegments := lenient_without "segments" htype hvalue hmisfit rfl
      (readBy_list Segment.ofDocument? [])
    simp only [Option.map_id_fun, id_eq] at hkind
    simp only [ofDocument?_eq, entries?_record, Option.map_some, ofEntries, hkind, halignment,
      hnewline, hsegments]
  | segment before after front back h =>
    rw [ofDocument?_eq, ofDocument?_eq, entries?_record, entries?_record, Option.map_some,
      Option.map_some, ofEntries_replace (Segment.ofDocument?_dropsMisfit h)]
  | listed before after kind alignment newline h =>
    have hread := ofEntries_replace (Segment.ofDocument?_dropsMisfit h) before after
      [("type".toList, kind), ("alignment".toList, alignment), ("newline".toList, newline)] []
    exact congrArg some hread

theorem Theme.ofDocument_dropsMisfit (h : DropsMisfit d d') : ofDocument d' = ofDocument d := by
  cases h with
  | field h =>
    obtain @⟨name, type, value, entries, htype, hvalue, hmisfit⟩ := h
    have hversion : "version".toList ≠ name := by
      rintro rfl
      cases htype
    have hblocks := lenient_without "blocks" htype hvalue hmisfit rfl
      (readBy_optional (fun d hd => itemsOf?_of_misfit hd Block.ofDocument?))
    have hpalette := lenient_without "palette" htype hvalue hmisfit rfl
      (readBy_optional (fun d hd => paletteOf?_of_misfit hd))
    simp only [ofDocument, ofEntries, lenient_without_of_ne hversion, hblocks, hpalette]
  | block before after front back h =>
    have hitems := itemsOf?_replace (Block.ofDocument?_dropsMisfit h) before after
    have hblocks := lenient_replace "blocks" (fun d => some (itemsOf? Block.ofDocument? d))
      (fun (_ : "blocks".toList = "blocks".toList) => congrArg some hitems) front back none
    simp only [ofDocument, ofEntries]
    rw [lenient_replace "version" _ (fun h => absurd h (by decide)), hblocks,
      lenient_replace "palette" _ (fun h => absurd h (by decide))]

/-- What can stand for a block or a segment: any record, and a list without items too many. -/
def Document.StandsFor (fields : Nat) (d : Document) : Prop :=
  (∃ entries, d = .record entries) ∨ ∃ items, d = .list items ∧ items.length ≤ fields

theorem isSome_entries?_iff (fields : List Text) (d : Document) :
    (d.entries? .entries fields).isSome = true ↔ d.StandsFor fields.length := by
  constructor
  · intro h
    cases d with
    | record entries => exact .inl ⟨entries, rfl⟩
    | list items =>
      by_cases hlength : items.length ≤ fields.length
      · exact .inr ⟨items, rfl, hlength⟩
      · simp [Document.entries?, hlength] at h
    | _ => cases h
  · rintro (⟨entries, rfl⟩ | ⟨items, rfl, hlength⟩)
    · rw [entries?_record]
      rfl
    · simp [Document.entries?, hlength]

theorem Block.isSome_ofDocument?_iff (d : Document) :
    (ofDocument? d).isSome = true ↔ d.StandsFor 4 := by
  rw [ofDocument?_eq, Option.isSome_map]
  exact isSome_entries?_iff fieldNames d

theorem Segment.isSome_ofDocument?_iff (d : Document) :
    (ofDocument? d).isSome = true ↔ d.StandsFor 7 := by
  rw [ofDocument?, Option.isSome_map]
  exact isSome_entries?_iff fieldNames d

theorem lenient_of_get? {α : Type} {entries : List (Text × Document)} {field : String}
    (h : Document.get? field.toList (.record entries) = some d) (read : Document → Option α)
    (default : α) : lenient entries field read default = (read d).getD default := by
  have hlookup : entries.reverse.lookup field.toList = some d := h
  rw [lenient, hlookup, Option.bind_some]

theorem Block.segments_of_record {entries : List (Text × Document)} {items : List Document}
    (h : Document.get? "segments".toList (.record entries) = some (.list items)) :
    (ofDocument? (.record entries)).map Block.segments =
      some (items.filterMap Segment.ofDocument?) := by
  rw [ofDocument?_eq, entries?_record, Option.map_some, Option.map_some]
  exact congrArg some (lenient_of_get? h _ _)

theorem paletteOf?_map_text (entries : List (Text × Document)) :
    (Theme.paletteOf? (.record entries)).map (List.map fun (name, color) => (name, .text color)) =
      some (entries.filter fun entry => entry.2.text?.isSome) := by
  rw [Theme.paletteOf?, Option.map_some]
  congr 1
  induction entries with
  | nil => rfl
  | cons entry entries ih =>
    obtain ⟨name, d⟩ := entry
    cases d with
    | text t => simpa [Document.text?] using ih
    | _ => simpa [Document.text?] using ih

/-- Misfit fields, at any depth and in any number, do not count, and only what is no record at all
is refused. Blocks, segments and colours are read one by one. -/
theorem Theme.ofDocument_lenient (d : Document) :
    ((∃ e, ofDocument d = .error e) ↔ ¬ ∃ entries, d = .record entries) ∧
    (∀ reason, ofDocument d ≠ .error (.misshapen reason)) ∧
    (∀ d', Relation.ReflTransGen DropsMisfit d d' → ofDocument d' = ofDocument d) ∧
    (∀ items, d.get? "blocks".toList = some (.list items) →
      (ofDocument d).map Theme.blocks = .ok (some (items.filterMap Block.ofDocument?))) ∧
    (∀ item, (Block.ofDocument? item).isSome = true ↔ item.StandsFor 4) ∧
    (∀ entries items, Document.get? "segments".toList (.record entries) = some (.list items) →
      (Block.ofDocument? (.record entries)).map Block.segments =
        some (items.filterMap Segment.ofDocument?)) ∧
    (∀ kind alignment newline items,
      (Block.ofDocument? (.list [kind, alignment, newline, .list items])).map Block.segments =
        some (items.filterMap Segment.ofDocument?)) ∧
    (∀ item, (Segment.ofDocument? item).isSome = true ↔ item.StandsFor 7) ∧
    ∀ entries, d.get? "palette".toList = some (.record entries) →
      (ofDocument d).map (fun t => t.palette.map (List.map fun (name, color) => (name, .text color))) =
        .ok (some (entries.filter fun entry => entry.2.text?.isSome)) := by
  refine ⟨?_, ?_, ?_, ?_, Block.isSome_ofDocument?_iff, ?_, ?_, Segment.isSome_ofDocument?_iff, ?_⟩
  · cases d with
    | record entries => simp [ofDocument]
    | _ => simp [ofDocument]
  · intro reason
    cases d <;> simp [ofDocument]
  · intro d' h
    induction h with
    | refl => rfl
    | tail _ hstep ih => exact (ofDocument_dropsMisfit hstep).trans ih
  · intro items h
    cases d with
    | record entries =>
      exact congrArg Except.ok (lenient_of_get? h (fun d => some (itemsOf? Block.ofDocument? d)) none)
    | _ => cases h
  · intro entries items h
    exact Block.segments_of_record h
  · intro kind alignment newline items
    rfl
  · intro entries h
    cases d with
    | record fields =>
      have hpalette := lenient_of_get? h (fun d => some (paletteOf? d)) none
      have hcolors := paletteOf?_map_text entries
      rw [ofDocument, Except.map, ofEntries, hpalette]
      exact congrArg Except.ok hcolors
    | _ => cases h

/-- A theme with a palette and a segment type that do not fit, an item that is no block and one
that is no segment. -/
def misfitTheme : Document :=
  .record [("palette".toList, .int 5),
    ("blocks".toList, .list [.int 42, .record [("type".toList, .text "prompt".toList),
      ("segments".toList, .list [.record [("type".toList, .null), ("template".toList, .text ['>'])],
        .bool true])]])]

/-- The same theme without the two fields. -/
def fittingTheme : Document :=
  .record [("blocks".toList, .list [.int 42, .record [("type".toList, .text "prompt".toList),
    ("segments".toList, .list [.record [("template".toList, .text ['>'])], .bool true])]])]

theorem dropsMisfit_misfitTheme : Relation.ReflTransGen Theme.DropsMisfit misfitTheme fittingTheme := by
  have hnull : Document.DropsMisfit Segment.fieldTypes
      (.record [("type".toList, .null), ("template".toList, .text ['>'])])
      (.record [("template".toList, .text ['>'])]) :=
    @Document.DropsMisfit.drop _ "type".toList .text .null
      [("type".toList, .null), ("template".toList, .text ['>'])] rfl rfl (by rintro ⟨t, ⟨⟩⟩)
  have hblock := Block.DropsMisfit.segment [] [.bool true]
    [("type".toList, .text "prompt".toList)] [] hnull
  have htheme := Theme.DropsMisfit.block [.int 42] [] [("palette".toList, .int 5)] [] hblock
  refine .tail (.single htheme) (.field ?_)
  exact @Document.DropsMisfit.drop _ "palette".toList .record (.int 5) _ rfl rfl
    (by rintro ⟨entries, ⟨⟩⟩)

theorem Theme.ofDocument_lenient_misfitTheme :
    Relation.ReflTransGen DropsMisfit misfitTheme fittingTheme ∧
      ofDocument fittingTheme = ofDocument misfitTheme ∧
      (ofDocument misfitTheme).map Theme.blocks =
        .ok (some [{ kind := "prompt".toList, segments := [{ template := some ['>'] }] }]) :=
  ⟨dropsMisfit_misfitTheme, (ofDocument_lenient misfitTheme).2.2.1 _ dropsMisfit_misfitTheme, rfl⟩

end
end ThemedPrompt
