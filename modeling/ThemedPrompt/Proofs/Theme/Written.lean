import ThemedPrompt.Proofs.Document.Entries
import ThemedPrompt.Proofs.Theme.Lenient

/-! # Written themes

A theme that was read is written as a document that is read as the same theme. Reading keeps every
name of a kind, and it only makes kinds that their names stand for; this is all that writing needs.
-/
namespace ThemedPrompt
open Document

namespace Kind

theorem name_ofName (name : Text) : (ofName name).name = name := by
  cases h : known.find? (·.name = name) with
  | none =>
    rw [ofName, h]
    rfl
  | some k =>
    have hname : k.name = name := by simpa using List.find?_some h
    rw [ofName, h]
    exact hname

/-- A kind is the one that its name stands for. -/
def IsNamed (k : Kind) : Prop := ofName k.name = k

theorem isNamed_ofName (name : Text) : (ofName name).IsNamed := by
  rw [IsNamed, name_ofName]

end Kind

theorem Alignment.ofDocument?_name (a : Alignment) : ofDocument? (.text a.name) = some a := by
  cases a <;> rfl

namespace Segment

def entries (s : Segment) : List (Text × Document) :=
  ("type".toList, .text s.kind.name) :: entryOf "template".toList .text s.template
    ++ entryOf "foreground".toList .text s.foreground
    ++ entryOf "background".toList .text s.background
    ++ entryOf "leading_diamond".toList .text s.leadingDiamond
    ++ entryOf "trailing_diamond".toList .text s.trailingDiamond
    ++ entryOf "powerline_symbol".toList .text s.powerlineSymbol

theorem toDocument_eq (s : Segment) : s.toDocument = .record s.entries := rfl

theorem valuesOf_type (s : Segment) : valuesOf ["type".toList] s.entries = [.text s.kind.name] := by
  simp [entries]

theorem ofDocument?_toDocument {s : Segment} (h : s.kind.IsNamed) :
    ofDocument? s.toDocument = some s := by
  have htext (field : String) (value : Option Text)
      (h : valuesOf [field.toList] s.entries = (value.map Document.text).toList) :
      lenient s.entries field (·.text?.map some) none = value := by
    rw [lenient_of_valuesOf h fun v _ => rfl, Option.map_id']
  rw [ofDocument?, toDocument_eq, entries?_record, Option.map_some]
  simp only
  rw [lenient_of_single s.valuesOf_type, htext _ s.template, htext _ s.foreground, htext _ s.background,
    htext _ s.leadingDiamond, htext _ s.trailingDiamond, htext _ s.powerlineSymbol]
  · change some { s with kind := Kind.ofName s.kind.name } = some s
    rw [h]
  all_goals simp [entries]

theorem kind_of_ofDocument? {d : Document} {s : Segment} (h : ofDocument? d = some s) :
    ∃ entries, d.entries? .entries fieldNames = some entries ∧
      s.kind = lenient entries "type" (·.text?.map Kind.ofName) (.other []) := by
  obtain ⟨entries, hentries, rfl⟩ := Option.map_eq_some_iff.1 h
  exact ⟨entries, hentries, rfl⟩

/-- The name of a type is written as it stood, whether it is known or not. -/
theorem type_toDocument {d : Document} {entries : List (Text × Document)} {name : Text}
    (hentries : d.entries? .entries fieldNames = some entries)
    (h : Document.get? "type".toList (.record entries) = some (.text name)) :
    ∃ s, ofDocument? d = some s ∧ s.toDocument.get? "type".toList = some (.text name) := by
  obtain ⟨s, hs⟩ : ∃ s, ofDocument? d = some s := by
    rw [ofDocument?, hentries]
    exact ⟨_, rfl⟩
  obtain ⟨read, hread, hkind⟩ := kind_of_ofDocument? hs
  obtain rfl : entries = read := Option.some.inj (hentries.symm.trans hread)
  have hname : s.kind.name = name := by
    rw [hkind, lenient_of_get? h]
    exact Kind.name_ofName name
  refine ⟨s, hs, ?_⟩
  rw [toDocument_eq, Document.get?, lookup_reverse, valuesOf_type, List.getLast?_singleton, hname]

theorem isNamed_of_ofDocument? {d : Document} {s : Segment} (h : ofDocument? d = some s) :
    s.kind.IsNamed := by
  obtain ⟨entries, -, hkind⟩ := kind_of_ofDocument? h
  rcases lenient_eq_or_read entries "type" (·.text?.map Kind.ofName) (.other []) with hdefault | hread
  · rw [hkind, hdefault]
    exact Kind.isNamed_ofName []
  · obtain ⟨d, hd⟩ := hread
    obtain ⟨name, -, hname⟩ := Option.map_eq_some_iff.1 hd
    rw [hkind, ← hname]
    exact Kind.isNamed_ofName name

end Segment

section
variable {α : Type} {read : Document → Option α} {write : α → Document} {xs : List α}

/-- Items that are written are read one by one. -/
theorem itemsOf?_map (h : ∀ x ∈ xs, read (write x) = some x) :
    itemsOf? read (.list (xs.map write)) = some xs := by
  have hitems : (xs.map write).filterMap read = xs := by
    rw [List.filterMap_map]
    induction xs with
    | nil => rfl
    | cons x xs ih =>
      obtain ⟨hx, hxs⟩ := List.forall_mem_cons.1 h
      rw [List.filterMap_cons, Function.comp_apply, hx, ih hxs]
  exact congrArg some hitems

/-- What is read from a list is read from its items. -/
theorem exists_of_mem_itemsOf? {d : Document} (hread : itemsOf? read d = some xs) {x : α}
    (hx : x ∈ xs) : ∃ item, read item = some x := by
  cases d with
  | list items =>
    cases hread
    obtain ⟨item, -, hitem⟩ := List.mem_filterMap.1 hx
    exact ⟨item, hitem⟩
  | _ => cases hread

end

namespace Block

def entries (b : Block) : List (Text × Document) :=
  [("type".toList, .text b.kind), ("alignment".toList, .text b.alignment.name),
    ("newline".toList, .bool b.newline),
    ("segments".toList, .list (b.segments.map Segment.toDocument))]

theorem toDocument_eq (b : Block) : b.toDocument = .record b.entries := rfl

/-- The kinds of the segments are those that their names stand for. -/
def IsNamed (b : Block) : Prop := ∀ s ∈ b.segments, s.kind.IsNamed

theorem ofDocument?_toDocument {b : Block} (h : b.IsNamed) : ofDocument? b.toDocument = some b := by
  have hkind : valuesOf ["type".toList] b.entries = [.text b.kind] := by simp [entries]
  have halignment : valuesOf ["alignment".toList] b.entries = [.text b.alignment.name] := by
    simp [entries]
  have hnewline : valuesOf ["newline".toList] b.entries = [.bool b.newline] := by simp [entries]
  have hsegments : valuesOf ["segments".toList] b.entries =
      [.list (b.segments.map Segment.toDocument)] := by
    simp [entries]
  have hitems := itemsOf?_map fun s hs => Segment.ofDocument?_toDocument (h s hs)
  rw [ofDocument?_eq, toDocument_eq, entries?_record, Option.map_some, ofEntries,
    lenient_of_single hkind, lenient_of_single halignment, lenient_of_single hnewline,
    lenient_of_single hsegments, Alignment.ofDocument?_name, hitems]
  rfl

theorem isNamed_of_ofDocument? {d : Document} {b : Block} (h : ofDocument? d = some b) :
    b.IsNamed := by
  obtain ⟨entries, -, rfl⟩ := Option.map_eq_some_iff.1 h
  intro s hs
  change s ∈ lenient entries "segments" (itemsOf? Segment.ofDocument?) [] at hs
  rcases lenient_eq_or_read entries "segments" (itemsOf? Segment.ofDocument?) [] with hdefault | hread
  · rw [hdefault] at hs
    cases hs
  · obtain ⟨d, hitems⟩ := hread
    obtain ⟨item, hitem⟩ := exists_of_mem_itemsOf? hitems hs
    exact Segment.isNamed_of_ofDocument? hitem

end Block

namespace Theme

def entries (t : Theme) : List (Text × Document) :=
  entryOf "version".toList id t.version
    ++ entryOf "blocks".toList (fun bs => .list (bs.map Block.toDocument)) t.blocks
    ++ entryOf "palette".toList (fun ps => .record (ps.map fun (name, c) => (name, .text c))) t.palette

theorem toDocument_eq (t : Theme) : t.toDocument = .record t.entries := rfl

/-- A theme that can have been read: its version is not null, and the kinds of its segments are
those that their names stand for. -/
structure IsNamed (t : Theme) : Prop where
  version : ∀ v ∈ t.version, v ≠ .null
  blocks : ∀ bs ∈ t.blocks, ∀ b ∈ bs, b.IsNamed

theorem paletteOf?_map_colors (ps : List (Text × Text)) :
    paletteOf? (.record (ps.map fun (name, c) => (name, .text c))) = some ps := by
  rw [paletteOf?, List.filterMap_map]
  exact congrArg some List.filterMap_some

theorem ofDocument_toDocument {t : Theme} (h : t.IsNamed) : ofDocument t.toDocument = .ok t := by
  have hversion : lenient t.entries "version" (fun d => some (versionOf? d)) none = t.version := by
    have hvalues : valuesOf ["version".toList] t.entries = (t.version.map id).toList := by
      simp [entries]
    have hread : ∀ v ∈ t.version, some (versionOf? v) = some (some v) := by
      intro v hv
      cases v with
      | null => exact absurd rfl (h.version _ hv)
      | _ => rfl
    rw [lenient_of_valuesOf hvalues hread, Option.map_id']
  have hblocks : lenient t.entries "blocks" (fun d => some (itemsOf? Block.ofDocument? d)) none =
      t.blocks := by
    have hvalues : valuesOf ["blocks".toList] t.entries =
        (t.blocks.map fun bs => Document.list (bs.map Block.toDocument)).toList := by
      simp [entries]
    have hread : ∀ bs ∈ t.blocks,
        some (itemsOf? Block.ofDocument? (.list (bs.map Block.toDocument))) = some (some bs) := by
      intro bs hbs
      rw [itemsOf?_map fun b hb => Block.ofDocument?_toDocument (h.blocks bs hbs b hb)]
    rw [lenient_of_valuesOf hvalues hread, Option.map_id']
  have hpalette : lenient t.entries "palette" (fun d => some (paletteOf? d)) none = t.palette := by
    have hvalues : valuesOf ["palette".toList] t.entries = (t.palette.map fun ps =>
        Document.record (ps.map fun (name, c) => (name, .text c))).toList := by
      simp [entries]
    have hread : ∀ ps ∈ t.palette,
        some (paletteOf? (.record (ps.map fun (name, c) => (name, .text c)))) = some (some ps) := by
      intro ps _
      rw [paletteOf?_map_colors]
    rw [lenient_of_valuesOf hvalues hread, Option.map_id']
  rw [toDocument_eq, ofDocument, ofEntries, hversion, hblocks, hpalette]

/-- A field that may be absent is read from a value that stands there, or it is absent. -/
theorem exists_of_lenient {α : Type} {entries : List (Text × Document)} {field : String}
    {read : Document → Option α} {v : α}
    (h : lenient entries field (fun d => some (read d)) none = some v) : ∃ d, read d = some v := by
  rcases lenient_eq_or_read entries field (fun d => some (read d)) none with hdefault | hread
  · rw [hdefault] at h
    cases h
  · obtain ⟨d, hd⟩ := hread
    exact ⟨d, (Option.some.inj hd).trans h⟩

theorem isNamed_ofEntries (entries : List (Text × Document)) : (ofEntries entries).IsNamed := by
  constructor
  · rintro v hv rfl
    obtain ⟨d, hd⟩ := exists_of_lenient hv
    cases d with
    | _ => cases hd
  · intro bs hbs b hb
    obtain ⟨d, hd⟩ := exists_of_lenient hbs
    obtain ⟨item, hitem⟩ := exists_of_mem_itemsOf? hd hb
    exact Block.isNamed_of_ofDocument? hitem

/-- Every record is read as a theme that reads the same after it was written, and so does any other
theme of which what is said of those that were read holds. The name of a segment's type is written
as it stood, whether the segment was a record or a list. -/
theorem ofDocument_toDocument_ofDocument :
    (∀ entries, ∃ t, ofDocument (.record entries) = .ok t ∧ t.IsNamed ∧
      ofDocument t.toDocument = .ok t) ∧
    (∀ t : Theme, t.IsNamed → ofDocument t.toDocument = .ok t) ∧
    ∀ d entries name, d.entries? .entries Segment.fieldNames = some entries →
      Document.get? "type".toList (.record entries) = some (.text name) →
        ∃ s, Segment.ofDocument? d = some s ∧
          s.toDocument.get? "type".toList = some (.text name) := by
  refine ⟨?_, ?_, ?_⟩
  · intro entries
    have hnamed := isNamed_ofEntries entries
    exact ⟨ofEntries entries, rfl, hnamed, ofDocument_toDocument hnamed⟩
  · intro t hnamed
    exact ofDocument_toDocument hnamed
  · intro d entries name hentries htype
    exact Segment.type_toDocument hentries htype

/-- A segment as a list, of a type that is not known and with a template that does not fit. -/
def weatherSegment : Document := .list [.text "weather".toList, .int 7]

/-- A block as a list, beside an item that is none; a palette that is none; a version that is null. -/
def weatherThemeEntries : List (Text × Document) :=
  [("version".toList, .null), ("palette".toList, .list []),
    ("blocks".toList, .list [.int 5, .list [.text "prompt".toList, .text "centre".toList, .bool true,
      .list [weatherSegment]]])]

def weatherTheme : Theme where
  blocks := some [{ kind := "prompt".toList, newline := true,
                    segments := [{ kind := .other "weather".toList }] }]

theorem ofDocument_toDocument_ofDocument_weather :
    ofDocument (.record weatherThemeEntries) = .ok weatherTheme ∧
      ofDocument weatherTheme.toDocument = .ok weatherTheme ∧
      ∃ s, Segment.ofDocument? weatherSegment = some s ∧
        s.toDocument.get? "type".toList = some (.text "weather".toList) := by
  obtain ⟨hread, hwrite, htype⟩ := ofDocument_toDocument_ofDocument
  obtain ⟨t, ht, hnamed, -⟩ := hread weatherThemeEntries
  have hweather : ofDocument (.record weatherThemeEntries) = .ok weatherTheme := rfl
  obtain rfl : t = weatherTheme := Except.ok.inj (ht.symm.trans hweather)
  exact ⟨hweather, hwrite _ hnamed, htype weatherSegment _ _ rfl rfl⟩

end Theme
end ThemedPrompt
