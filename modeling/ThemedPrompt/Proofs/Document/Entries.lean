import ThemedPrompt.Theme.Document

/-! # Entries of written records

A field that is set has one entry and a field that is not has none, under a name that no other field
reads. So a record is read from the entries that it is written as, whether what does not fit is
refused or passed over.
-/
namespace ThemedPrompt
namespace Document

/-- The entry of a field that is set. -/
def entryOf {α : Type} (name : Text) (write : α → Document) (value : Option α) :
    List (Text × Document) :=
  (value.map fun v => (name, write v)).toList

section
variable {α : Type} {names : List Text} {name : Text} {write : α → Document} {value : Option α}

@[simp] theorem valuesOf_nil (names : List Text) : valuesOf names [] = [] := rfl

@[simp] theorem valuesOf_cons (names : List Text) (entry : Text × Document)
    (entries : List (Text × Document)) : valuesOf names (entry :: entries) =
      (if names.contains entry.1 then [entry.2] else []) ++ valuesOf names entries := by
  by_cases h : entry.1 ∈ names <;> simp [valuesOf, h]

@[simp] theorem valuesOf_append (names : List Text) (entries more : List (Text × Document)) :
    valuesOf names (entries ++ more) = valuesOf names entries ++ valuesOf names more := by
  simp [valuesOf]

@[simp] theorem valuesOf_entryOf (names : List Text) (name : Text) (write : α → Document)
    (value : Option α) : valuesOf names (entryOf name write value) =
      if names.contains name then (value.map write).toList else [] := by
  cases value with
  | none => simp [valuesOf, entryOf]
  | some v => by_cases h : name ∈ names <;> simp [valuesOf, entryOf, h]

theorem mem_entryOf {entry : Text × Document} (h : entry ∈ entryOf name write value) :
    ∃ v, value = some v ∧ entry = (name, write v) := by
  cases value with
  | none => cases h
  | some v => exact ⟨v, rfl, List.mem_singleton.1 h⟩

theorem map_fst_entryOf (name : Text) (write : α → Document) (value : Option α) :
    ((entryOf name write value).map Prod.fst).Sublist [name] := by
  cases value with
  | none => exact List.nil_sublist _
  | some v => exact List.Sublist.refl _

theorem field?_of_single {β : Type} {entries : List (Text × Document)} {d : Document}
    (h : valuesOf names entries = [d]) (read : Document → Option β) (default : Option β) :
    field? entries names read default = read d := by
  rw [field?, h]

/-- A field is read as what it was written from, up to the way it is kept. -/
theorem field?_of_valuesOf {β : Type} {entries : List (Text × Document)}
    {read : Document → Option (Option β)} {keep : α → β}
    (h : valuesOf names entries = (value.map write).toList)
    (hread : ∀ v, read (write v) = some (some (keep v))) :
    field? entries names read (some none) = some (value.map keep) := by
  rw [field?, h]
  cases value with
  | none => rfl
  | some v => exact hread v

/-- The last value under a name is the one that counts. -/
theorem lookup_reverse (name : Text) (entries : List (Text × Document)) :
    entries.reverse.lookup name = (valuesOf [name] entries).getLast? := by
  induction entries with
  | nil => rfl
  | cons entry entries ih =>
    obtain ⟨key, d⟩ := entry
    have hlast : [(key, d)].lookup name = (if [name].contains key then [d] else []).getLast? := by
      by_cases h : key = name
      · simp [h]
      · simp [h, List.lookup_cons, beq_false_of_ne (Ne.symm h)]
    rw [List.reverse_cons, List.lookup_append, ih, valuesOf_cons, List.getLast?_append, hlast]

theorem lenient_of_single {entries : List (Text × Document)} {field : String} {d : Document}
    (h : valuesOf [field.toList] entries = [d]) (read : Document → Option α) (default : α) :
    lenient entries field read default = (read d).getD default := by
  rw [lenient, lookup_reverse, h, List.getLast?_singleton, Option.bind_some]

/-- A field has its default, or what was read from some value. -/
theorem lenient_eq_or_read (entries : List (Text × Document)) (field : String)
    (read : Document → Option α) (default : α) :
    lenient entries field read default = default ∨
      ∃ d, read d = some (lenient entries field read default) := by
  rw [lenient]
  cases hread : (entries.reverse.lookup field.toList).bind read with
  | none => exact .inl rfl
  | some value =>
    obtain ⟨d, -, hd⟩ := Option.bind_eq_some_iff.1 hread
    exact .inr ⟨d, hd⟩

theorem lenient_of_valuesOf {β : Type} {entries : List (Text × Document)} {field : String}
    {read : Document → Option (Option β)} {keep : α → β}
    (h : valuesOf [field.toList] entries = (value.map write).toList)
    (hread : ∀ v ∈ value, read (write v) = some (some (keep v))) :
    lenient entries field read none = value.map keep := by
  rw [lenient, lookup_reverse, h]
  cases value with
  | none => rfl
  | some v =>
    rw [Option.map_some, Option.toList_some, List.getLast?_singleton, Option.bind_some, hread v rfl]
    rfl

end

/-- A record under known names is read field by field, whatever may be left unread. -/
theorem entries?_of_names {fields : List Text} {entries : List (Text × Document)}
    (h : ∀ entry ∈ entries, entry.1 ∈ fields) (unread : Unread) :
    (Document.record entries).entries? unread fields = some entries := by
  refine if_pos (.inr ?_)
  rw [List.all_eq_true]
  intro entry hentry
  simp [h entry hentry]

end Document
end ThemedPrompt
