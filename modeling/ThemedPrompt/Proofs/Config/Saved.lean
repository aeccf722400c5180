import ThemedPrompt.Config.File
import ThemedPrompt.Proofs.Config.WrittenDocuments
import ThemedPrompt.Proofs.Files.Growth

/-! # Saved configurations

What is saved at a path is what is loaded from it, in either format. Only a theme path that is not
text cannot be saved, and then no file is touched.
-/
namespace ThemedPrompt
namespace Config
open FileTree

/-- The theme path is not text. -/
def Unwritable (c : Config) : Prop := ∃ p, c.themePath = some p ∧ p.text? = none

section
variable {files made written : FileTree} {c : Config} {p : Pathname} {t : Text}

theorem save_of_none (hmade : files.makeParents p = (made, .ok ()))
    (htext : c.toText? (.ofPath p) = none) :
    save files c p = (made, .error (.configUnwritable (Format.ofPath p).name
      "path contains invalid UTF-8 characters".toList)) := by
  rw [save, hmade]
  dsimp only
  rw [htext]

theorem save_of_some (hmade : files.makeParents p = (made, .ok ()))
    (htext : c.toText? (.ofPath p) = some t) (hwritten : made.write p (Utf8.encode t) = .ok written) :
    save files c p = (written, .ok ()) := by
  rw [save, hmade]
  dsimp only
  rw [htext]
  dsimp only
  rw [hwritten]

/-- What a file says is checked after it has been read. -/
theorem load_of_ofText? (htext : files.readText p = .ok t) (hread : ofText? (.ofPath p) t = some c) :
    load files p = c.check.map fun _ => c := by
  have hconfig : read files (.ofPath p) p = .ok c := by
    rw [read, htext]
    dsimp only
    rw [hread]
  rw [load, hconfig]
  change (c.check.bind fun _ => .ok c) = _
  cases c.check <;> rfl

end

/-- A configuration is saved unless its theme path is not text, and then loaded as it was if it
passes its check. -/
theorem load_save (files : FileTree) (c : Config) (p : Pathname) (h : files.Writable p) :
    ((∃ format reason, (save files c p).2 = .error (.configUnwritable format reason)) ↔
      c.Unwritable) ∧
    (c.Unwritable → Grown files (save files c p).1 ∧ Unchanged files (save files c p).1 p) ∧
    (¬ c.Unwritable → (save files c p).2 = .ok () ∧
      load (save files c p).1 p = c.check.map fun _ => c) := by
  have ⟨made, hmade, hwrite⟩ := h
  cases htext : c.toText? (.ofPath p) with
  | none =>
    have hunwritable : c.Unwritable := (toText?_eq_none_iff _ c).1 htext
    have hsave := save_of_none hmade htext
    have hgrown := files.grown_makeParents p
    have hunchanged := unchanged_makeParents h
    rw [hmade] at hgrown hunchanged
    refine ⟨⟨fun _ => hunwritable, fun _ => ?_⟩, fun _ => ?_, fun hwritable => ?_⟩
    · rw [hsave]
      exact ⟨_, _, rfl⟩
    · rw [hsave]
      exact ⟨hgrown, hunchanged⟩
    · exact absurd hunwritable hwritable
  | some t =>
    have hwritable : ¬ c.Unwritable := by
      intro hunwritable
      rw [(toText?_eq_none_iff _ c).2 hunwritable] at htext
      cases htext
    obtain ⟨written, hwritten⟩ := hwrite (Utf8.encode t)
    have hsave := save_of_some hmade htext hwritten
    refine ⟨⟨?_, fun h => absurd h hwritable⟩, fun h => absurd h hwritable, fun _ => ?_⟩
    · rintro ⟨format, reason, herror⟩
      rw [hsave] at herror
      cases herror
    · rw [hsave]
      exact ⟨rfl, load_of_ofText? (readText_of_write hwritten) (ofText?_toText? htext)⟩

/-- A prompt with quotes and a line break, saved in a directory that is not there yet; and a theme
path that is not text, which leaves alone the file that there is. -/
theorem load_save_quotedPrompt :
    let c : Config := { fallback := "'❯'\n\"\"\"".toList, context := { code := some (-1) } }
    let unwritable : Config := { c with themePath := some ⟨[0xff]⟩ }
    let p := Pathname.ofText "saved/config.toml".toList
    let empty : FileTree := ⟨[], []⟩
    let saved : FileTree := ⟨[], [(p.names, .file [0x31]), (p.names.take 1, .directory)]⟩
    (empty.Writable p ∧ (save empty c p).2 = .ok () ∧ load (save empty c p).1 p = .ok c) ∧
      saved.Writable p ∧ unwritable.Unwritable ∧
      (∃ format reason, (save saved unwritable p).2 = .error (.configUnwritable format reason)) ∧
      (save saved unwritable p).1.read p = .ok [0x31] := by
  intro c unwritable p empty saved
  have hwritable : empty.Writable p := ⟨_, rfl, fun content => ⟨_, rfl⟩⟩
  have htext : ¬ c.Unwritable := by
    rintro ⟨q, hq, -⟩
    cases hq
  have hwritable' : saved.Writable p := ⟨_, rfl, fun content => ⟨_, rfl⟩⟩
  have htext' : unwritable.Unwritable := ⟨_, rfl, by decide +kernel⟩
  obtain ⟨hfails, hkept, -⟩ := load_save saved unwritable p hwritable'
  obtain ⟨l, hl, hentry, hsame⟩ := (hkept htext').2
  refine ⟨⟨hwritable, (load_save empty c p hwritable).2.2 htext⟩, hwritable', htext',
    hfails.2 htext', ?_⟩
  obtain rfl := hsame p.names rfl
  exact read_of_entry hl hentry

end Config
end ThemedPrompt
