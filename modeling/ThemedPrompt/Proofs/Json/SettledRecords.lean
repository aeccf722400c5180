import Mathlib.Data.List.Nodup
import ThemedPrompt.Proofs.Json.WrittenDocuments

/-! # Settled records

A record that was read as a value has one entry for each key. A flat one with distinct keys is read
back as it was written.
-/
namespace ThemedPrompt
namespace Document
variable {entries : List (Text × Document)}

theorem isSome_lookup_iff_mem (key : Text) (entries : List (Text × Document)) :
    (entries.lookup key).isSome = true ↔ key ∈ entries.map Prod.fst := by
  rw [List.lookup_isSome_iff, List.mem_map]
  constructor
  · rintro ⟨entry, hentry, heq⟩
    exact ⟨entry, hentry, (beq_iff_eq.1 heq).symm⟩
  · rintro ⟨entry, hentry, rfl⟩
    exact ⟨entry, hentry, beq_self_eq_true _⟩

theorem lastEntries_cons (entry : Text × Document) (entries : List (Text × Document)) :
    lastEntries (entry :: entries) =
      if ((lastEntries entries).lookup entry.1).isSome then lastEntries entries
      else entry :: lastEntries entries := rfl

theorem nodup_lastEntries (entries : List (Text × Document)) :
    ((lastEntries entries).map Prod.fst).Nodup := by
  induction entries with
  | nil => exact List.nodup_nil
  | cons entry entries ih =>
    rw [lastEntries_cons]
    split
    · exact ih
    · next hnew =>
      rw [isSome_lookup_iff_mem] at hnew
      exact List.nodup_cons.2 ⟨hnew, ih⟩

theorem lastEntries_of_nodup (h : (entries.map Prod.fst).Nodup) :
    lastEntries entries = entries := by
  induction entries with
  | nil => rfl
  | cons entry entries ih =>
    obtain ⟨hnew, hrest⟩ := List.nodup_cons.1 h
    rw [lastEntries_cons, ih hrest, if_neg]
    rw [isSome_lookup_iff_mem]
    exact hnew

/-- A document with no other documents in it that has a meaning. -/
def Scalar : Document → Prop
  | .list _ => False
  | .record _ => False
  | .unreadable => False
  | _ => True

theorem Scalar.settled_eq {d : Document} (h : d.Scalar) : d.settled = d := by
  cases d with
  | list => cases h
  | record => cases h
  | _ => rfl

theorem Scalar.readable_eq {d : Document} (h : d.Scalar) : d.readable = true := by
  cases d with
  | list => cases h
  | record => cases h
  | unreadable => cases h
  | _ => rfl

theorem Scalar.depth_eq {d : Document} (h : d.Scalar) : d.depth = 0 := by
  cases d with
  | list => cases h
  | record => cases h
  | _ => rfl

/-- A record of scalars is read as it stands. -/
theorem settledEntries_of_scalar (h : ∀ entry ∈ entries, entry.2.Scalar) :
    settledEntries entries = entries ∧ readableEntries entries = true ∧
      depthOfEntries entries = 0 := by
  induction entries with
  | nil => exact ⟨rfl, rfl, rfl⟩
  | cons entry entries ih =>
    obtain ⟨key, d⟩ := entry
    obtain ⟨hd, hrest⟩ := List.forall_mem_cons.1 h
    obtain ⟨hsettled, hreadable, hdepth⟩ := ih hrest
    refine ⟨?_, ?_, ?_⟩
    · rw [settledEntries, hd.settled_eq, hsettled]
    · rw [readableEntries, hd.readable_eq, hreadable]
      rfl
    · rw [depthOfEntries, hd.depth_eq, hdepth]
      rfl

end Document

namespace Json
open Document
variable {entries : List (Text × Document)}

theorem nodup_of_read? {t : Text} (h : read? t = some (.record entries)) :
    (entries.map Prod.fst).Nodup := by
  obtain ⟨d, -, hd⟩ := Option.bind_eq_some_iff.1 h
  split at hd
  · have hsettled := Option.some.inj hd
    cases d with
    | record written =>
      rw [settled] at hsettled
      cases hsettled
      exact nodup_lastEntries _
    | _ => cases hsettled
  · cases hd

theorem read?_pretty (hplain : Plain (.record entries)) (hnodup : (entries.map Prod.fst).Nodup)
    (hscalar : ∀ entry ∈ entries, entry.2.Scalar) :
    read? (pretty (.record entries)) = some (.record entries) := by
  obtain ⟨hsettled, hreadable, hdepth⟩ := settledEntries_of_scalar hscalar
  rw [read?, parse?_pretty hplain]
  simp only [Option.bind_eq_bind, Option.bind_some]
  rw [readable, hreadable, depth, hdepth, if_pos (by decide), settled, hsettled,
    lastEntries_of_nodup hnodup]

end Json
end ThemedPrompt
