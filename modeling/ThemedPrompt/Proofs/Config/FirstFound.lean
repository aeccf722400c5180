import ThemedPrompt.Config.Search
import ThemedPrompt.Proofs.Files.JoinedPaths

/-! # The first configuration that is found

A search comes to the first file that holds a configuration. The files before it are passed over,
whatever is wrong with them, and those behind it do not count, even if the configuration is then
refused. The file that was found can be loaded by its path.
-/
namespace ThemedPrompt
namespace FileTree
variable {files : FileTree} {p : Pathname}

theorem follow_error {location : Location} {names : List Name} {e : FileError}
    (h : files.follow location names = .error e) : e = .notFound ∨ e = .notADirectory := by
  induction names generalizing location with
  | nil => cases h
  | cons name names ih =>
    rw [follow] at h
    split at h
    · exact ih h
    · cases h
      exact .inr rfl
    · cases h
      exact .inl rfl

/-- The ways in which a file cannot be read. -/
theorem read_error {e : FileError} (h : files.read p = .error e) :
    e = .notFound ∨ e = .notADirectory ∨ e = .isADirectory ∨ e = .permissionDenied := by
  cases hlocate : files.locate p with
  | error e' =>
    rw [read, hlocate] at h
    cases h
    rw [locate] at hlocate
    split at hlocate
    · cases hlocate
      exact .inl rfl
    · rcases follow_error hlocate with rfl | rfl
      · exact .inl rfl
      · exact .inr (.inl rfl)
  | ok location =>
    rw [read, hlocate] at h
    dsimp only [bind, Except.bind] at h
    split at h
    · cases h
    · cases h
      exact .inr (.inr (.inr rfl))
    · cases h
      exact .inr (.inr (.inl rfl))
    · cases h
      exact .inl rfl

theorem readText_of_read {content : Bytes} (h : files.read p = .ok content) :
    files.readText p = (Utf8.decode? content).elim (.error .invalidUtf8) .ok := by
  rw [readText, h]
  dsimp only [bind, Except.bind]
  cases Utf8.decode? content <;> rfl

theorem readText_of_error {e : FileError} (h : files.read p = .error e) :
    files.readText p = .error e := by
  rw [readText, h]
  rfl

end FileTree

namespace Config
open FileTree

/-- A file is there, holds text, and the text is a configuration in the format. -/
def Holds (files : FileTree) (format : Format) (p : Pathname) (c : Config) : Prop :=
  ∃ content t, files.read p = .ok content ∧ Utf8.decode? content = some t ∧
    ofText? format t = some c

/-- Why a path has no configuration: nothing is there, or what is there is a directory or sealed; or
the file holds no text, or none in the format. -/
inductive Unfit (files : FileTree) (format : Format) (p : Pathname) : Prop
  | absent (h : files.read p = .error .notFound ∨ files.read p = .error .notADirectory)
  | directory (h : files.read p = .error .isADirectory)
  | sealed (h : files.read p = .error .permissionDenied)
  | notText {content : Bytes} (h : files.read p = .ok content) (htext : Utf8.decode? content = none)
  | malformed {content : Bytes} {t : Text} (h : files.read p = .ok content)
      (htext : Utf8.decode? content = some t) (hparse : ofText? format t = none)

section
variable {files : FileTree} {format : Format} {p : Pathname} {c : Config}

theorem read_of_readText {t : Text} (htext : files.readText p = .ok t) :
    read files format p = (ofText? format t).elim (.error (.configMalformed format.name none)) .ok := by
  rw [read, htext]
  dsimp only
  cases ofText? format t <;> rfl

theorem read_of_holds (h : Holds files format p c) : read files format p = .ok c := by
  obtain ⟨content, t, hread, htext, hparse⟩ := h
  have hfile := readText_of_read hread
  rw [htext] at hfile
  rw [read_of_readText hfile, hparse]
  rfl

theorem read_of_unfit (h : Unfit files format p) : ∃ e, read files format p = .error e := by
  have hunreadable {e : FileError} (hread : files.read p = .error e) :
      ∃ e, read files format p = .error e := by
    rw [read, readText_of_error hread]
    exact ⟨_, rfl⟩
  cases h with
  | absent h => exact h.elim hunreadable hunreadable
  | directory h => exact hunreadable h
  | sealed h => exact hunreadable h
  | notText h htext =>
    have hfile := readText_of_read h
    rw [htext] at hfile
    rw [read, hfile]
    exact ⟨_, rfl⟩
  | malformed h htext hparse =>
    have hfile := readText_of_read h
    rw [htext] at hfile
    rw [read_of_readText hfile, hparse]
    exact ⟨_, rfl⟩

/-- At every path there is a configuration, or one of the reasons why there is none. -/
theorem holds_or_unfit (files : FileTree) (format : Format) (p : Pathname) :
    (∃ c, Holds files format p c) ∨ Unfit files format p := by
  cases hread : files.read p with
  | error e =>
    right
    rcases read_error hread with rfl | rfl | rfl | rfl
    · exact .absent (.inl hread)
    · exact .absent (.inr hread)
    · exact .directory hread
    · exact .sealed hread
  | ok content =>
    cases htext : Utf8.decode? content with
    | none => exact .inr (.notText hread htext)
    | some t =>
      cases hparse : ofText? format t with
      | none => exact .inr (.malformed hread htext hparse)
      | some c => exact .inl ⟨c, content, t, hread, htext, hparse⟩

end

/-- The format that a file was searched for in is the one that its name tells. -/
theorem Format.ofPath_join (directory : Pathname) (format : Format) :
    ofPath (directory.join format.fileName) = format := by
  have hname : Pathname.IsFileName format.fileName.bytes := by
    cases format <;> decide
  have hextension := Pathname.extension?_join hname directory
  rw [ofPath, hextension]
  cases format <;> decide

end Config

namespace Search
open Config

/-- The first file that holds a configuration. No file in the directories before its own has one,
and of two in its own that in TOML goes first; all files behind it may hold anything. -/
def First (s : Search) (files : FileTree) (path : Pathname) (c : Config) : Prop :=
  ∃ before directory after format,
    s.directories = before ++ directory :: after ∧ path = directory.join (Format.fileName format) ∧
    (∀ d ∈ before, ∀ f, Unfit files f (d.join f.fileName)) ∧
    (format = .json → Unfit files .toml (directory.join (Format.fileName .toml))) ∧
    Holds files format path c

/-- No directory has a file that holds a configuration. -/
def Vain (s : Search) (files : FileTree) : Prop :=
  ∀ d ∈ s.directories, ∀ f, Unfit files f (d.join f.fileName)

section
variable {s : Search} {files : FileTree} {path : Pathname} {c : Config} {options : Options}

/-- What a search takes from a file that it looks at. -/
def taken? (files : FileTree) (candidate : Pathname × Format) : Option (Pathname × Config) :=
  match read files candidate.2 candidate.1 with
  | .ok c => some (candidate.1, c)
  | .error _ => none

theorem find?_eq (s : Search) (files : FileTree) :
    s.find? files = s.candidates.findSome? (taken? files) := rfl

theorem candidates_append (before after : List Pathname) (directory : Pathname) :
    candidates { directories := before ++ directory :: after } =
      candidates { directories := before } ++
        (directory.join (Format.fileName .toml), .toml) ::
        (directory.join (Format.fileName .json), .json) :: candidates { directories := after } := by
  rw [candidates, List.flatMap_append]
  rfl

theorem taken?_of_holds {format : Format} (h : Holds files format path c) :
    taken? files (path, format) = some (path, c) := by
  rw [taken?, read_of_holds h]

theorem taken?_of_unfit {format : Format} (h : Unfit files format path) :
    taken? files (path, format) = none := by
  obtain ⟨e, he⟩ := read_of_unfit h
  rw [taken?, he]

theorem find?_of_vain (h : s.Vain files) : s.find? files = none := by
  rw [find?_eq, List.findSome?_eq_none_iff]
  intro candidate hcandidate
  obtain ⟨directory, hdirectory, hmem⟩ := List.mem_flatMap.1 hcandidate
  obtain ⟨format, _, rfl⟩ := List.mem_map.1 hmem
  exact taken?_of_unfit (h directory hdirectory format)

theorem find?_of_first (h : s.First files path c) : s.find? files = some (path, c) := by
  obtain ⟨before, directory, after, format, hsplit, rfl, hbefore, htoml, hholds⟩ := h
  have hcandidates : s.candidates = candidates { directories := before ++ directory :: after } := by
    rw [candidates, candidates, hsplit]
  have hskipped : (candidates { directories := before }).findSome? (taken? files) = none :=
    find?_of_vain hbefore
  rw [find?_eq, hcandidates, candidates_append, List.findSome?_append, hskipped, Option.none_or,
    List.findSome?_cons]
  cases format with
  | toml => rw [taken?_of_holds hholds]
  | json => rw [taken?_of_unfit (htoml rfl), List.findSome?_cons, taken?_of_holds hholds]

theorem first_or_vain (s : Search) (files : FileTree) :
    (∃ path c, s.First files path c) ∨ s.Vain files := by
  obtain ⟨directories, currentPath⟩ := s
  induction directories with
  | nil =>
    right
    rintro d ⟨⟩
  | cons directory directories ih =>
    -- The directory's own files come before all those that the induction tells about.
    rcases holds_or_unfit files .toml (directory.join (Format.fileName .toml)) with ⟨c, htoml⟩ | htoml
    · left
      exact ⟨_, c, [], directory, directories, .toml, rfl, rfl, by simp, by simp, htoml⟩
    · rcases holds_or_unfit files .json (directory.join (Format.fileName .json)) with
        ⟨c, hjson⟩ | hjson
      · left
        exact ⟨_, c, [], directory, directories, .json, rfl, rfl, by simp, fun _ => htoml, hjson⟩
      · have hunfit : ∀ f : Format, Unfit files f (directory.join f.fileName) := by
          intro f
          cases f with
          | toml => exact htoml
          | json => exact hjson
        rcases ih with ⟨path, c, before, d, after, format, hsplit, hrest⟩ | hvain
        · left
          refine ⟨path, c, directory :: before, d, after, format, congrArg _ hsplit, hrest.1, ?_,
            hrest.2.2⟩
          exact List.forall_mem_cons.2 ⟨hunfit, hrest.2.1⟩
        · right
          exact List.forall_mem_cons.2 ⟨hunfit, hvain⟩

theorem load_of_first_refused (h : s.First files path c) (hoption : options.check = true) {e : Error}
    (hcheck : c.check = .error e) : s.load files options = (s, .error e) := by
  rw [load, find?_of_first h]
  dsimp only
  rw [if_pos hoption, hcheck]

theorem load_of_first (h : s.First files path c) (hcheck : options.check = false ∨ c.check = .ok ()) :
    s.load files options = ({ s with currentPath := some path }, .ok c) := by
  have hpass : (if options.check then c.check else .ok ()) = .ok () := by
    rcases hcheck with hoption | hcheck
    · rw [if_neg (by simp [hoption])]
    · rw [hcheck, ite_self]
  rw [load, find?_of_first h]
  dsimp only
  rw [hpass]

theorem load_of_vain (h : s.Vain files) (options : Options) :
    s.load files options = (s, if options.acceptDefault then .ok {} else .error .configNotFound) := by
  rw [load, find?_of_vain h]

/-- The file that was found is read in the same format by its path. -/
theorem config_load_of_first (h : s.First files path c) :
    Config.load files path = c.check.map fun _ => c := by
  obtain ⟨before, directory, after, format, hsplit, rfl, hbefore, htoml, hholds⟩ := h
  rw [Config.load, Format.ofPath_join, read_of_holds hholds]
  change (c.check.bind fun _ => .ok c) = _
  cases c.check <;> rfl

end

/-- The first file with a configuration decides what a search loads, and without any the default
configuration does or nothing. What was found, checked and remembered can be loaded by its path. -/
theorem load_first_or_vain (s : Search) (files : FileTree) (options : Options) :
    ((∃ path c, s.First files path c) ∨ s.Vain files) ∧
    (∀ path c, s.First files path c →
      (∀ e, options.check = true → c.check = .error e → s.load files options = (s, .error e)) ∧
      (options.check = false ∨ c.check = .ok () →
        s.load files options = ({ s with currentPath := some path }, .ok c))) ∧
    (s.Vain files →
      s.load files options =
        (s, if options.acceptDefault then .ok {} else .error .configNotFound)) ∧
    ∀ s' path c, s.currentPath = none → options.check = true →
      s.load files options = (s', .ok c) → s'.currentPath = some path →
        Config.load files path = .ok c := by
  refine ⟨first_or_vain s files, ?_, ?_, ?_⟩
  · intro path c hfirst
    exact ⟨fun e hoption hcheck => load_of_first_refused hfirst hoption hcheck, load_of_first hfirst⟩
  · intro hvain
    exact load_of_vain hvain options
  · intro s' path c hfresh hoption hload hpath
    rcases first_or_vain s files with ⟨found, c', hfirst⟩ | hvain
    · cases hcheck : c'.check with
      | error e =>
        rw [load_of_first_refused hfirst hoption hcheck] at hload
        cases hload
      | ok u =>
        rw [load_of_first hfirst (.inr hcheck)] at hload
        cases hload
        cases hpath
        rw [config_load_of_first hfirst, hcheck]
        rfl
    · rw [load_of_vain hvain] at hload
      obtain ⟨rfl, -⟩ := Prod.mk.inj hload
      rw [hfresh] at hpath
      cases hpath

/-- Two directories: in one, a file that is not text and a directory, and in the other a sealed file
before a good one. -/
def brokenFiles : FileTree :=
  let location (t : String) : Location := (Pathname.ofText t.toList).names
  ⟨[], [(location "a", .directory), (location "a/config.toml", .file [0xff]),
    (location "a/config.json", .directory), (location "b", .directory),
    (location "b/config.toml", .sealed),
    (location "b/config.json", .file (Utf8.encode "\x7b\"fallback_prompt\": \"> \"\x7d".toList))]⟩

def twoDirectories : Search := ⟨[.ofText "/a/".toList, .ofText "b".toList], none⟩

theorem first_twoDirectories :
    twoDirectories.First brokenFiles (.ofText "b/config.json".toList) { fallback := "> ".toList } := by
  have hparse : ofText? .json "\x7b\"fallback_prompt\": \"> \"\x7d".toList =
      some { fallback := "> ".toList } := by decide +kernel
  refine ⟨[.ofText "/a/".toList], .ofText "b".toList, [], .json, rfl, by decide, ?_, ?_,
    _, _, rfl, Utf8.decode?_encode _, hparse⟩
  · intro d hd f
    obtain rfl := List.mem_singleton.1 hd
    cases f with
    | toml =>
      have hread : brokenFiles.read ((Pathname.ofText "/a/".toList).join (Format.fileName .toml)) =
          .ok [0xff] := rfl
      exact .notText hread (by decide)
    | json => exact .directory rfl
  · intro _
    exact .sealed rfl

theorem load_first_or_vain_twoDirectories :
    twoDirectories.First brokenFiles (.ofText "b/config.json".toList) { fallback := "> ".toList } ∧
      twoDirectories.load brokenFiles {} =
        ({ twoDirectories with currentPath := some (.ofText "b/config.json".toList) },
          .ok { fallback := "> ".toList }) ∧
      Config.load brokenFiles (.ofText "b/config.json".toList) = .ok { fallback := "> ".toList } := by
  obtain ⟨-, hfirst, -, hpath⟩ := load_first_or_vain twoDirectories brokenFiles {}
  have hload := (hfirst _ _ first_twoDirectories).2 (.inr rfl)
  exact ⟨first_twoDirectories, hload, hpath _ _ _ rfl rfl hload rfl⟩

end Search
end ThemedPrompt
