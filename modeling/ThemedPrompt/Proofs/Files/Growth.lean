import ThemedPrompt.Files.Tree

/-! # Growth of file trees

Making directories takes nothing away: what stood before stands after, and a path that led somewhere
leads there still. A file that is written at a path is what the path then reads.
-/
namespace ThemedPrompt
namespace FileTree

/-- Only directories have been added, where nothing stood. -/
structure Grown (files after : FileTree) : Prop where
  workingDirectory : after.workingDirectory = files.workingDirectory
  entry : ∀ l, after.entry? l = files.entry? l ∨
    files.entry? l = none ∧ after.entry? l = some .directory

variable {files after last made written : FileTree} {location l : Location} {names : List Name}
  {p : Pathname} {content : Bytes} {e : Entry}

theorem Grown.refl (files : FileTree) : Grown files files := ⟨rfl, fun _ => .inl rfl⟩

theorem Grown.trans (h : Grown files after) (h' : Grown after last) : Grown files last := by
  refine ⟨h'.workingDirectory.trans h.workingDirectory, fun l => ?_⟩
  rcases h'.entry l with hlast | ⟨hnone, hlast⟩
  · rw [hlast]
    exact h.entry l
  · rcases h.entry l with hafter | ⟨-, hafter⟩
    · exact .inr ⟨hafter ▸ hnone, hlast⟩
    · rw [hafter] at hnone
      cases hnone

theorem Grown.entry_of_some (h : Grown files after) (hl : files.entry? l = some e) :
    after.entry? l = some e := by
  rcases h.entry l with hafter | ⟨hnone, -⟩
  · rw [hafter, hl]
  · rw [hl] at hnone
    cases hnone

/-- What is not a directory now was there before, or nothing was. -/
theorem Grown.entry_of_ne (h : Grown files after) (hl : after.entry? l ≠ some .directory) :
    after.entry? l = files.entry? l :=
  (h.entry l).resolve_right fun hadded => hl hadded.2

theorem follow_cons_eq_ok {name : Name} (h : files.follow location (name :: names) = .ok l) :
    files.entry? location = some .directory ∧ files.follow (enter location name) names = .ok l := by
  rw [follow] at h
  split at h
  · next hdirectory => exact ⟨hdirectory, h⟩
  · cases h
  · cases h

theorem follow_cons_of_directory (name : Name) (names : List Name)
    (h : files.entry? location = some .directory) :
    files.follow location (name :: names) = files.follow (enter location name) names := by
  rw [follow, h]

/-- A way goes through directories only, so it is the same wherever these still are. -/
theorem follow_of_directories
    (h : ∀ l, files.entry? l = some .directory → after.entry? l = some .directory)
    (hfollow : files.follow location names = .ok l) : after.follow location names = .ok l := by
  induction names generalizing location with
  | nil => exact hfollow
  | cons name names ih =>
    obtain ⟨hdirectory, hrest⟩ := follow_cons_eq_ok hfollow
    rw [follow_cons_of_directory name names (h location hdirectory), ih hrest]

theorem Grown.start (h : Grown files after) (absolute : Bool) :
    after.start absolute = files.start absolute := by
  rw [FileTree.start, FileTree.start, h.workingDirectory]

theorem Grown.locate (h : Grown files after) (hp : files.locate p = .ok l) :
    after.locate p = .ok l := by
  rw [FileTree.locate] at hp ⊢
  split at hp
  · cases hp
  · next hempty =>
    rw [if_neg hempty, h.start]
    exact follow_of_directories (fun l => h.entry_of_some) hp

theorem entry?_put (files : FileTree) (location : Location) (e : Entry) (l : Location) :
    FileTree.entry? (files.put location e) l =
      if l = [] then some .directory else if l = location then some e else files.entry? l := by
  unfold entry? put
  by_cases hroot : l = []
  · rw [if_pos hroot, if_pos hroot]
  · rw [if_neg hroot, if_neg hroot, if_neg hroot, List.lookup_cons]
    by_cases hl : l = location
    · simp [hl]
    · simp [hl, beq_false_of_ne hl]

/-- The root is a directory. -/
theorem ne_nil_of_not_directory (h : files.entry? l ≠ some .directory) : l ≠ [] := by
  rintro rfl
  exact h (if_pos rfl)

theorem grown_put (h : files.entry? location = none) : Grown files (files.put location .directory) := by
  have hroot : location ≠ [] := ne_nil_of_not_directory (by rw [h]; rintro ⟨⟩)
  refine ⟨rfl, fun l => ?_⟩
  rw [entry?_put]
  by_cases hl : l = location
  · subst hl
    rw [if_neg hroot, if_pos rfl]
    exact .inr ⟨h, rfl⟩
  · rw [if_neg hl]
    by_cases hnil : l = []
    · rw [if_pos hnil, hnil]
      exact .inl rfl
    · rw [if_neg hnil]
      exact .inl rfl

theorem grown_makeDirectory {absolute : Bool} (h : files.makeDirectory absolute names = .ok made) :
    Grown files made := by
  cases hfollow : files.follow (files.start absolute) names with
  | error e =>
    rw [makeDirectory, hfollow] at h
    cases h
  | ok l =>
    rw [makeDirectory, hfollow] at h
    dsimp only [bind, Except.bind] at h
    split at h
    · cases h
    · next hl =>
      cases h
      exact grown_put hl

theorem grown_makeDirectories (files : FileTree) (absolute : Bool) (names : List Name) :
    Grown files (files.makeDirectories absolute names).1 := by
  induction names with
  | nil => exact .refl files
  | cons name above ih =>
    rw [makeDirectories]
    split
    · next made hmade => exact grown_makeDirectory hmade
    · split
      · next made e hmade =>
        rw [hmade] at ih
        exact ih
      · next made u hmade =>
        rw [hmade] at ih
        split
        · exact ih
        · split
          · next more hmore => exact ih.trans (grown_makeDirectory hmore)
          · exact ih
    · exact .refl files

theorem grown_makeParents (files : FileTree) (p : Pathname) : Grown files (files.makeParents p).1 :=
  grown_makeDirectories files _ _

/-- What a path must be for a file to be written there, and what the tree is after that. -/
theorem write_eq_ok (h : files.write p content = .ok written) :
    ∃ l, files.locate p = .ok l ∧ files.entry? l ≠ some .directory ∧
      written = files.put l (.file content) := by
  rw [write] at h
  split at h
  · cases h
  · next hempty =>
    cases hfollow : files.follow (files.start p.isAbsolute) p.names with
    | error e =>
      rw [hfollow] at h
      cases h
    | ok l =>
      rw [hfollow] at h
      dsimp only [bind, Except.bind] at h
      split at h
      · cases h
      · next hslash =>
        refine ⟨l, ?_, ?_, ?_⟩
        · rw [locate, if_neg hempty, if_neg hslash, hfollow]
        · intro hdirectory
          rw [hdirectory] at h
          cases h
        · split at h
          · cases h
          · cases h
          · cases h
            rfl

theorem read_of_entry (hl : files.locate p = .ok l) (hfile : files.entry? l = some (.file content)) :
    files.read p = .ok content := by
  rw [read, hl]
  dsimp only [bind, Except.bind]
  rw [hfile]
  rfl

/-- A path at which a file was written reads that file. -/
theorem read_of_write (h : files.write p content = .ok written) : written.read p = .ok content := by
  obtain ⟨l, hl, hentry, rfl⟩ := write_eq_ok h
  -- The way to the file goes through directories, and the file has taken the place of none.
  have hway : ∀ l', files.entry? l' = some .directory →
      FileTree.entry? (files.put l (.file content)) l' = some .directory := by
    intro l' hdirectory
    rw [entry?_put]
    split
    · rfl
    · rw [if_neg, hdirectory]
      rintro rfl
      exact hentry hdirectory
  have hlocate : (files.put l (.file content)).locate p = .ok l := by
    rw [locate] at hl ⊢
    split at hl
    · cases hl
    · next hempty =>
      rw [if_neg hempty]
      exact follow_of_directories hway hl
  have hfile : FileTree.entry? (files.put l (.file content)) l = some (.file content) := by
    rw [entry?_put, if_neg (ne_nil_of_not_directory hentry), if_pos rfl]
  exact read_of_entry hlocate hfile

theorem readText_of_write {t : Text} (h : files.write p (Utf8.encode t) = .ok written) :
    written.readText p = .ok t := by
  rw [readText, read_of_write h]
  dsimp only [bind, Except.bind]
  rw [Utf8.decode?_encode]
  rfl

/-- A file can be written at a path, once its directories are made. -/
def Writable (files : FileTree) (p : Pathname) : Prop :=
  ∃ made, files.makeParents p = (made, .ok ()) ∧
    ∀ content, ∃ written, made.write p content = .ok written

/-- The path leads to a place where nothing has changed, the same as before if it led anywhere. -/
def Unchanged (files after : FileTree) (p : Pathname) : Prop :=
  ∃ l, after.locate p = .ok l ∧ after.entry? l = files.entry? l ∧
    ∀ l', files.locate p = .ok l' → l' = l

theorem unchanged_makeParents (h : files.Writable p) :
    Unchanged files (files.makeParents p).1 p := by
  obtain ⟨made, hmade, hwrite⟩ := h
  obtain ⟨written, hwritten⟩ := hwrite []
  have hgrown := grown_makeParents files p
  rw [hmade] at hgrown ⊢
  obtain ⟨l, hl, hentry, -⟩ := write_eq_ok hwritten
  refine ⟨l, hl, hgrown.entry_of_ne hentry, fun l' hl' => ?_⟩
  have hsame := hgrown.locate hl'
  rw [hl] at hsame
  exact (Except.ok.inj hsame).symm

end FileTree
end ThemedPrompt
