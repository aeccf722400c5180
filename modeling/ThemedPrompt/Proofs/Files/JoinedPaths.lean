import ThemedPrompt.Files.Pathname
import ThemedPrompt.Proofs.Text.Cutting

/-! # Paths inside a directory

A path inside a directory has the names of both, whatever slashes the directory ends with. So the
file at its end is named as it was, and so is its extension.
-/
namespace ThemedPrompt
namespace Pathname
open Text

/-- What may name a file: it is one name, and neither of the two that stand for directories. -/
structure IsFileName (name : Name) : Prop where
  ne_nil : name ≠ []
  notMem_slash : slash ∉ name
  ne_here : name ≠ here
  ne_up : name ≠ up

section
variable {name : Name}

instance : Decidable (IsFileName name) :=
  decidable_of_iff (name ≠ [] ∧ slash ∉ name ∧ name ≠ here ∧ name ≠ up)
    ⟨fun ⟨h₁, h₂, h₃, h₄⟩ => ⟨h₁, h₂, h₃, h₄⟩, fun ⟨h₁, h₂, h₃, h₄⟩ => ⟨h₁, h₂, h₃, h₄⟩⟩

theorem names_nil : names ⟨[]⟩ = [] := rfl

theorem names_append_slash (front rest : Bytes) :
    names ⟨front ++ slash :: rest⟩ = names ⟨front⟩ ++ names ⟨rest⟩ := by
  have hpieces : splitBy (· = slash) (front ++ slash :: rest) =
      splitBy (· = slash) front ++ splitBy (· = slash) rest := by
    apply splitBy_append_separator
    exact decide_eq_true rfl
  rw [names, hpieces, List.filter_append]
  rfl

theorem names_join {p : Pathname} (hp : p.isAbsolute = false) (directory : Pathname) :
    (directory.join p).names = directory.names ++ p.names := by
  unfold join
  rw [if_neg (by simp [hp])]
  split
  · next hdirectory =>
    rcases Bool.or_eq_true_iff.1 hdirectory with hempty | hslash
    · have hbytes : directory.bytes = [] := List.isEmpty_iff.1 hempty
      have hnames : directory.names = [] := by rw [names, hbytes]; exact names_nil
      rw [hbytes, hnames]
      rfl
    · obtain ⟨front, hfront⟩ := List.getLast?_eq_some_iff.1 (of_decide_eq_true hslash)
      have hnames : directory.names = names ⟨front⟩ := by
        have h := names_append_slash front []
        rw [names_nil, List.append_nil, ← hfront] at h
        exact h
      rw [hfront, List.append_assoc, hnames]
      exact names_append_slash front p.bytes
  · exact names_append_slash directory.bytes p.bytes

theorem IsFileName.names_eq (h : IsFileName name) : names ⟨name⟩ = [name] := by
  have hpieces : splitBy (· = slash) name = [name] := by
    apply splitBy_of_none
    intro b hb
    apply decide_eq_false
    rintro rfl
    exact h.notMem_slash hb
  rw [names, hpieces]
  simp [h.ne_nil]

theorem IsFileName.isAbsolute_eq (h : IsFileName name) : isAbsolute ⟨name⟩ = false := by
  apply decide_eq_false
  intro hhead
  exact h.notMem_slash (List.mem_of_mem_head? hhead)

/-- The last name of a path is its last component, unless it stands for a directory. -/
theorem fileName?_of_names {p : Pathname} {front : List Name} (hnames : p.names = front ++ [name])
    (hhere : name ≠ here) (hup : name ≠ up) : p.fileName? = some name := by
  have hlast (names : List Name) : (names ++ [name]).filter (· ≠ here) =
      names.filter (· ≠ here) ++ [name] := by
    simp [List.filter_append, hhere]
  have hcomponents : p.components.getLast? = some name := by
    unfold components
    rw [hnames]
    cases p.isAbsolute with
    | true =>
      dsimp only
      rw [hlast, List.getLast?_concat]
    | false =>
      cases front with
      | nil => rfl
      | cons first rest =>
        dsimp only [List.cons_append]
        rw [hlast, ← List.cons_append, List.getLast?_concat]
  rw [fileName?, hcomponents]
  simp [hhere, hup]

theorem fileName?_join (h : IsFileName name) (directory : Pathname) :
    (directory.join ⟨name⟩).fileName? = some name := by
  have hnames := names_join h.isAbsolute_eq directory
  rw [h.names_eq] at hnames
  exact fileName?_of_names hnames h.ne_here h.ne_up

end

/-- A file keeps its extension in any directory. -/
theorem extension?_join {name : Name} (h : IsFileName name) (directory : Pathname) :
    (directory.join ⟨name⟩).extension? = extension? ⟨name⟩ := by
  have hnames : names ⟨name⟩ = [] ++ [name] := h.names_eq
  have hself := fileName?_of_names hnames h.ne_here h.ne_up
  rw [extension?, extension?, fileName?_join h, hself]

end Pathname
end ThemedPrompt
