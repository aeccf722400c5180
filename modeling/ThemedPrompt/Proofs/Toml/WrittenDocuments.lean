import Mathlib.Data.List.Nodup
import ThemedPrompt.Proofs.Toml.WrittenLines

/-! # Written documents of TOML

A record of values and of records of values is read back, if no key is written twice. Its statements
come in the order of its entries, and each adds what it says behind all that is there.
-/
namespace ThemedPrompt
namespace Toml

/-- A record of values, with its key. -/
abbrev Section := Text × List (Text × Document)

/-- Entries whose values are written each on its line. -/
def InlineEntries (entries : List (Text × Document)) : Prop :=
  ∀ entry ∈ entries, Bare entry.1 ∧ Inline entry.2

/-- What can be written without loss. -/
structure Plain (values : List (Text × Document)) (sections : List Section) : Prop where
  inlineValues : InlineEntries values
  bareKeys : ∀ s ∈ sections, Bare s.1
  inlineSections : ∀ s ∈ sections, InlineEntries s.2
  distinctInside : ∀ s ∈ sections, (s.2.map Prod.fst).Nodup
  distinct : (values.map Prod.fst ++ sections.map Prod.fst).Nodup

def entriesOf (values : List (Text × Document)) (sections : List Section) : List (Text × Document) :=
  values ++ sections.map fun s => (s.1, .record s.2)

def assignmentsOf (entries : List (Text × Document)) : List Statement :=
  entries.map fun entry => .assign [entry.1] entry.2

def statementsOf (sections : List Section) : List Statement :=
  sections.flatMap fun s => .table [s.1] :: assignmentsOf s.2

section
variable {entries values : List (Text × Document)} {sections : List Section}

theorem assignments_append (entries more : List (Text × Document)) :
    assignments (entries ++ more) = assignments entries ++ assignments more := by
  simp [assignments]

/-- Records have no line among the values. -/
theorem assignments_sections (sections : List Section) :
    assignments (sections.map fun s => (s.1, .record s.2)) = [] := by
  simp [assignments, assignment?, inline?]

theorem inline?_of_inline {d : Document} (hd : Inline d) : ∃ v, inline? d = some v := by
  cases d with
  | text t => exact ⟨_, rfl⟩
  | bool b => exact ⟨_, rfl⟩
  | int n => exact ⟨_, rfl⟩
  | _ => exact hd.elim

/-- Values have no header. -/
theorem section?_of_inline {d : Document} (hd : Inline d) (key : Text) : section? key d = none := by
  cases d with
  | record entries => exact hd.elim
  | _ => rfl

theorem readFrom_assignments (h : InlineEntries entries) (done : List Statement) (rest : Text) :
    readFrom ⟨.line, [], done⟩ (assignments entries ++ rest) =
      readFrom ⟨.line, [], (assignmentsOf entries).reverse ++ done⟩ rest := by
  induction entries generalizing done with
  | nil => rfl
  | cons entry entries ih =>
    obtain ⟨⟨hkey, hd⟩, hentries⟩ := List.forall_mem_cons.1 h
    obtain ⟨v, hv⟩ := inline?_of_inline hd
    have hline : assignment? entry.1 entry.2 = some (entry.1 ++ " = ".toList ++ v ++ ['\n']) := by
      rw [assignment?, hv]
      rfl
    have hwritten : assignments (entry :: entries) =
        entry.1 ++ " = ".toList ++ v ++ ['\n'] ++ assignments entries := by
      simp [assignments, hline]
    rw [hwritten, List.append_assoc, readFrom_assignment hkey hd hline, ih hentries]
    simp [assignmentsOf]

theorem readFrom_sections (hkeys : ∀ s ∈ sections, Bare s.1)
    (hsections : ∀ s ∈ sections, InlineEntries s.2) (done : List Statement) (rest : Text) :
    readFrom ⟨.line, [], done⟩
        (sections.flatMap (fun s => "\n[".toList ++ s.1 ++ "]\n".toList ++ assignments s.2) ++ rest) =
      readFrom ⟨.line, [], (statementsOf sections).reverse ++ done⟩ rest := by
  induction sections generalizing done with
  | nil => rfl
  | cons s sections ih =>
    obtain ⟨hkey, hkeys⟩ := List.forall_mem_cons.1 hkeys
    obtain ⟨hs, hsections⟩ := List.forall_mem_cons.1 hsections
    rw [List.flatMap_cons, List.append_assoc, List.append_assoc, readFrom_header hkey,
      readFrom_assignments hs, ih hkeys hsections]
    simp [statementsOf]

theorem write_entriesOf (hvalues : InlineEntries values) (sections : List Section) :
    write (entriesOf values sections) = assignments values ++
      sections.flatMap fun s => "\n[".toList ++ s.1 ++ "]\n".toList ++ assignments s.2 := by
  rw [write, entriesOf, assignments_append, assignments_sections, List.append_nil,
    List.filterMap_append, List.filterMap_eq_nil_iff.2, List.nil_append]
  · simp [section?, List.flatMap_def]
  · intro entry hentry
    exact section?_of_inline (hvalues entry hentry).2 entry.1

end

/-- The items of values. -/
def closedOf (entries : List (Text × Document)) : Entries :=
  entries.map fun entry => (entry.1, .closed entry.2)

theorem map_fst_closedOf (entries : List (Text × Document)) :
    (closedOf entries).map Prod.fst = entries.map Prod.fst := by
  simp [closedOf]

section
variable {key : Text} {before : Entries}

theorem lookup_of_notMem (h : key ∉ before.map Prod.fst) : before.lookup key = none := by
  rw [List.lookup_eq_none_iff]
  intro entry hentry
  have hne : key ≠ entry.1 := by
    rintro rfl
    exact h (List.mem_map_of_mem hentry)
  exact bne_iff_ne.2 hne

theorem lookup_append_singleton (h : key ∉ before.map Prod.fst) (item : Item) :
    (before ++ [(key, item)]).lookup key = some item := by
  rw [List.lookup_append, lookup_of_notMem h]
  simp

theorem set_append_singleton (h : key ∉ before.map Prod.fst) (item other : Item) :
    Entries.set key other (before ++ [(key, item)]) = before ++ [(key, other)] := by
  induction before with
  | nil => simp [Entries.set]
  | cons entry before ih =>
    have hentry : entry.1 ≠ key := fun hkey => h (by simp [hkey])
    have hbefore : key ∉ before.map Prod.fst := fun hmem => h (List.mem_cons_of_mem _ hmem)
    rw [List.cons_append, Entries.set, if_neg hentry, ih hbefore]
    rfl

/-- A new key goes behind all others. -/
theorem assign_of_notMem (h : key ∉ before.map Prod.fst) (d : Document) :
    assign [key] d before = some (before ++ [(key, .closed d)]) := by
  simp [assign, descend, insertNew, lookup_of_notMem h]

theorem openTable_of_notMem (h : key ∉ before.map Prod.fst) :
    openTable [key] before = some (before ++ [(key, .table .header [])]) := by
  simp [openTable, descend, lookup_of_notMem h]

theorem add_assign_of_notMem (h : key ∉ before.map Prod.fst) (d : Document) :
    Draft.add ⟨before, []⟩ (.assign [key] d) = some ⟨before ++ [(key, .closed d)], []⟩ := by
  simp [Draft.add, descend, assign_of_notMem h]

/-- Behind a header the table under it gets the value. -/
theorem add_assign_inside {place : Text} {inner : Entries} (hplace : place ∉ before.map Prod.fst)
    (h : key ∉ inner.map Prod.fst) (d : Document) :
    Draft.add ⟨before ++ [(place, .table .header inner)], [place]⟩ (.assign [key] d) =
      some ⟨before ++ [(place, .table .header (inner ++ [(key, .closed d)]))], [place]⟩ := by
  simp [Draft.add, descend, assign_of_notMem h, lookup_append_singleton hplace,
    set_append_singleton hplace]

theorem add_table_of_notMem (h : key ∉ before.map Prod.fst) (place : List Text) :
    Draft.add ⟨before, place⟩ (.table [key]) =
      some ⟨before ++ [(key, .table .header [])], [key]⟩ := by
  simp [Draft.add, openTable_of_notMem h]

end

/-- Of distinct keys in a row, the first is none of those before it. -/
theorem notMem_of_nodup {α : Type} {before after : List α} {a : α}
    (h : (before ++ a :: after).Nodup) : a ∉ before :=
  fun hmem => (List.nodup_append.1 h).2.2 a hmem a List.mem_cons_self rfl

theorem foldlM_assignments {entries : List (Text × Document)} {before : Entries}
    (h : (before.map Prod.fst ++ entries.map Prod.fst).Nodup) :
    (assignmentsOf entries).foldlM Draft.add ⟨before, []⟩ =
      some ⟨before ++ closedOf entries, []⟩ := by
  induction entries generalizing before with
  | nil => simp [assignmentsOf, closedOf]
  | cons entry entries ih =>
    have hnext : ((before ++ [(entry.1, Item.closed entry.2)]).map Prod.fst ++
        entries.map Prod.fst).Nodup := by simpa using h
    rw [assignmentsOf, List.map_cons, List.foldlM_cons, add_assign_of_notMem (notMem_of_nodup h)]
    exact (ih hnext).trans (by simp [closedOf])

theorem foldlM_inside {entries : List (Text × Document)} {before inner : Entries} {place : Text}
    (hplace : place ∉ before.map Prod.fst)
    (h : (inner.map Prod.fst ++ entries.map Prod.fst).Nodup) :
    (assignmentsOf entries).foldlM Draft.add ⟨before ++ [(place, .table .header inner)], [place]⟩ =
      some ⟨before ++ [(place, .table .header (inner ++ closedOf entries))], [place]⟩ := by
  induction entries generalizing inner with
  | nil => simp [assignmentsOf, closedOf]
  | cons entry entries ih =>
    have hnext : ((inner ++ [(entry.1, Item.closed entry.2)]).map Prod.fst ++
        entries.map Prod.fst).Nodup := by simpa using h
    rw [assignmentsOf, List.map_cons, List.foldlM_cons,
      add_assign_inside hplace (notMem_of_nodup h)]
    exact (ih hnext).trans (by simp [closedOf])

/-- The items of sections. -/
def tablesOf (sections : List Section) : Entries :=
  sections.map fun s => (s.1, .table .header (closedOf s.2))

theorem foldlM_sections {sections : List Section} {before : Entries} (place : List Text)
    (hinside : ∀ s ∈ sections, (s.2.map Prod.fst).Nodup)
    (h : (before.map Prod.fst ++ sections.map Prod.fst).Nodup) :
    ∃ last, (statementsOf sections).foldlM Draft.add ⟨before, place⟩ =
      some ⟨before ++ tablesOf sections, last⟩ := by
  induction sections generalizing before place with
  | nil => exact ⟨place, by simp [statementsOf, tablesOf]⟩
  | cons s sections ih =>
    obtain ⟨hs, hinside⟩ := List.forall_mem_cons.1 hinside
    have hnew : s.1 ∉ before.map Prod.fst := notMem_of_nodup h
    have hnext : ((before ++ [(s.1, Item.table .header (closedOf s.2))]).map Prod.fst ++
        sections.map Prod.fst).Nodup := by simpa using h
    obtain ⟨last, hlast⟩ := ih [s.1] hinside hnext
    refine ⟨last, ?_⟩
    rw [statementsOf, List.flatMap_cons, List.cons_append, List.foldlM_cons,
      add_table_of_notMem hnew]
    change (assignmentsOf s.2 ++ statementsOf sections).foldlM Draft.add _ = _
    rw [List.foldlM_append, foldlM_inside hnew (by simpa using hs)]
    exact hlast.trans (by simp [tablesOf])

theorem documentEntries_eq_map (entries : Entries) :
    documentEntries entries = entries.map fun entry => (entry.1, entry.2.toDocument) := by
  induction entries with
  | nil => rfl
  | cons entry entries ih => rw [documentEntries, ih, List.map_cons]

theorem documentEntries_closedOf (entries : List (Text × Document)) :
    documentEntries (closedOf entries) = entries := by
  simp [documentEntries_eq_map, closedOf, Item.toDocument, Function.comp_def]

theorem documentEntries_tablesOf (sections : List Section) :
    documentEntries (tablesOf sections) = sections.map fun s => (s.1, .record s.2) := by
  rw [documentEntries_eq_map, tablesOf, List.map_map]
  apply List.map_congr_left
  intro s _
  simp [Item.toDocument, documentEntries_closedOf]

section
variable {values : List (Text × Document)} {sections : List Section}

/-- The statements of a record are the record. -/
theorem ofStatements?_entriesOf (h : Plain values sections) :
    ofStatements? (assignmentsOf values ++ statementsOf sections) =
      some (.record (entriesOf values sections)) := by
  have hkeys : ((closedOf values).map Prod.fst ++ sections.map Prod.fst).Nodup := by
    rw [map_fst_closedOf]
    exact h.distinct
  have hvalues : (assignmentsOf values).foldlM Draft.add {} = some ⟨closedOf values, []⟩ :=
    foldlM_assignments (List.Nodup.of_append_left h.distinct)
  obtain ⟨last, hlast⟩ := foldlM_sections [] h.distinctInside hkeys
  rw [ofStatements?, List.foldlM_append, hvalues]
  change ((statementsOf sections).foldlM Draft.add ⟨closedOf values, []⟩).bind _ = _
  rw [hlast]
  have hentries : documentEntries (closedOf values ++ tablesOf sections) =
      entriesOf values sections := by
    rw [documentEntries_eq_map, List.map_append, ← documentEntries_eq_map, ← documentEntries_eq_map,
      documentEntries_closedOf, documentEntries_tablesOf, entriesOf]
  rw [← hentries]
  rfl

theorem dropMark_of_head {t : Text} (h : ∀ c ∈ t.head?, c ≠ '\uFEFF') : dropMark t = t := by
  unfold dropMark
  split
  · exact absurd rfl (h _ rfl)
  · rfl

/-- What is written starts with a key or a line break. -/
theorem dropMark_write (h : Plain values sections) :
    dropMark (write (entriesOf values sections)) = write (entriesOf values sections) := by
  refine dropMark_of_head ?_
  rw [write_entriesOf h.inlineValues]
  cases values with
  | nil =>
    cases sections with
    | nil => rintro c ⟨⟩
    | cons s sections => rintro c ⟨⟩; decide
  | cons entry values =>
    obtain ⟨⟨⟨hne, hkey⟩, hd⟩, -⟩ := List.forall_mem_cons.1 h.inlineValues
    obtain ⟨v, hv⟩ := inline?_of_inline hd
    obtain ⟨c, cs, hfront⟩ := List.exists_cons_of_ne_nil hne
    have hc := hkey c (by rw [hfront]; exact List.mem_cons_self)
    simp only [assignments, List.filterMap_cons, assignment?, hv, hfront, Option.map_some]
    rintro d ⟨⟩ rfl
    exact absurd hc (by decide)

theorem read?_eq (t : Text) : read? t =
    (readFrom {} (dropMark t)).bind fun last => last.statements?.bind ofStatements? := by
  rw [read?, readFrom, Option.bind_assoc]
  rfl

/-- What is written is read back. -/
theorem read?_write (h : Plain values sections) :
    read? (write (entriesOf values sections)) = some (.record (entriesOf values sections)) := by
  have hread : readFrom {} (write (entriesOf values sections)) =
      some ⟨.line, [], (assignmentsOf values ++ statementsOf sections).reverse⟩ := by
    have hsections := readFrom_sections h.bareKeys h.inlineSections (assignmentsOf values).reverse []
    have hvalues := readFrom_assignments h.inlineValues []
    simp only [List.append_nil, readFrom_nil] at hsections hvalues
    rw [write_entriesOf h.inlineValues, hvalues, hsections, List.reverse_append]
    rfl
  have hstatements : Progress.statements?
      ⟨.line, [], (assignmentsOf values ++ statementsOf sections).reverse⟩ =
        some (assignmentsOf values ++ statementsOf sections) := by
    rw [Progress.statements?, if_pos rfl, List.reverse_reverse]
  rw [read?_eq, dropMark_write h, hread, Option.bind_some, hstatements, Option.bind_some,
    ofStatements?_entriesOf h]

end

end Toml
end ThemedPrompt
