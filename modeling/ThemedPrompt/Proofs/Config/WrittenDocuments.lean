import ThemedPrompt.Config.Document
import ThemedPrompt.Proofs.Document.Entries
import ThemedPrompt.Proofs.Json.WrittenDocuments
import ThemedPrompt.Proofs.Toml.WrittenDocuments

/-! # Written configurations

An update and a configuration are read from the entries that they are written as.
-/
namespace ThemedPrompt

theorem Document.int32?_toInt (n : Int32) : Document.int32? (.int n.toInt) = some n := by
  have hlow := n.le_toInt
  have hhigh := n.toInt_lt
  rw [Document.int32?, if_pos ⟨by omega, by omega⟩, Int32.ofInt_toInt]

namespace Update
open Document

/-- The entries of the fields that are set. -/
def entries (u : Update) : List (Text × Document) :=
  entryOf "UserName".toList .text u.userName ++ entryOf "HostName".toList .text u.hostName
    ++ entryOf "Shell".toList .text u.shell ++ entryOf "PWD".toList .text u.workingDirectory
    ++ entryOf "HOME".toList .text u.home ++ entryOf "OS".toList .text u.system
    ++ entryOf "WSL".toList .bool u.wsl ++ entryOf "Root".toList .bool u.root
    ++ entryOf "Code".toList (fun n : Int32 => .int n.toInt) u.code

theorem toDocument_eq (u : Update) : u.toDocument = .record u.entries := rfl

/-- Fields have different names, and only those that are set are written. -/
theorem map_fst_entries (u : Update) :
    (u.entries.map Prod.fst).Sublist (Context.fieldNames.map Prod.fst) := by
  have hnames : Context.fieldNames.map Prod.fst =
      ["UserName".toList] ++ ["HostName".toList] ++ ["Shell".toList] ++ ["PWD".toList] ++ ["HOME".toList]
        ++ ["OS".toList] ++ ["WSL".toList] ++ ["Root".toList] ++ ["Code".toList] := rfl
  simp only [entries, List.map_append]
  rw [hnames]
  refine .append (.append (.append (.append (.append (.append (.append (.append ?_ ?_) ?_) ?_) ?_)
    ?_) ?_) ?_) ?_
  all_goals exact map_fst_entryOf _ _ _

theorem mem_entries {u : Update} {entry : Text × Document} (h : entry ∈ u.entries) :
    (∃ t, entry.2 = .text t) ∨ (∃ b, entry.2 = .bool b) ∨ ∃ n : Int32, entry.2 = .int n.toInt := by
  simp only [entries, List.mem_append] at h
  rcases h with (((((((h | h) | h) | h) | h) | h) | h) | h) | h
  all_goals obtain ⟨v, -, rfl⟩ := mem_entryOf h
  case inr => exact .inr (.inr ⟨v, rfl⟩)
  case inl.inr => exact .inr (.inl ⟨v, rfl⟩)
  case inl.inl.inr => exact .inr (.inl ⟨v, rfl⟩)
  all_goals exact .inl ⟨v, rfl⟩

theorem ofDocument?_toDocument (u : Update) (unread : Unread) :
    ofDocument? unread u.toDocument = some u := by
  have hentries : u.toDocument.entries? unread (Context.fieldNames.map Prod.fst) = some u.entries :=
    entries?_of_names
      (fun entry hentry => (map_fst_entries u).subset (List.mem_map_of_mem hentry)) unread
  have htext (names : List Text) (value : Option Text)
      (h : valuesOf names u.entries = (value.map Document.text).toList) :
      field? u.entries names (optional? text?) (some none) = some value := by
    rw [field?_of_valuesOf h fun v => rfl, Option.map_id']
  have hbool (names : List Text) (value : Option Bool)
      (h : valuesOf names u.entries = (value.map Document.bool).toList) :
      field? u.entries names (optional? bool?) (some none) = some value := by
    rw [field?_of_valuesOf h fun v => rfl, Option.map_id']
  have hcode (names : List Text)
      (h : valuesOf names u.entries = (u.code.map fun n => Document.int n.toInt).toList) :
      field? u.entries names (optional? int32?) (some none) = some u.code := by
    have hread (n : Int32) : optional? int32? (.int n.toInt) = some (some n) := by
      rw [optional?, int32?_toInt]
      · rfl
      · rintro ⟨⟩
    rw [field?_of_valuesOf h hread, Option.map_id']
  rw [ofDocument?, hentries]
  simp only [Option.bind_eq_bind, Option.bind_some]
  rw [htext _ u.userName, htext _ u.hostName, htext _ u.shell, htext _ u.workingDirectory,
    htext _ u.home, htext _ u.system, hbool _ u.wsl, hbool _ u.root, hcode]
  · rfl
  all_goals simp [entries]

theorem plain_json (u : Update) : Json.Plain u.toDocument := by
  refine Json.plainEntries_iff.2 fun entry hentry => ?_
  rcases mem_entries hentry with ⟨t, h⟩ | ⟨b, h⟩ | ⟨n, h⟩
  · rw [h]
    trivial
  · rw [h]
    trivial
  · have hlow := n.le_toInt
    have hhigh := n.toInt_lt
    rw [h]
    exact ⟨by simp only [Nat.pow_eq]; omega, by simp only [Nat.pow_eq]; omega⟩

theorem inlineEntries (u : Update) : Toml.InlineEntries u.entries := by
  intro entry hentry
  have hnames : ∀ name ∈ Context.fieldNames.map Prod.fst, Toml.Bare name := by decide
  refine ⟨hnames _ (u.map_fst_entries.subset (List.mem_map_of_mem hentry)), ?_⟩
  rcases mem_entries hentry with ⟨t, h⟩ | ⟨b, h⟩ | ⟨n, h⟩
  · rw [h]
    trivial
  · rw [h]
    trivial
  · have hlow := n.le_toInt
    have hhigh := n.toInt_lt
    rw [h]
    exact ⟨by simp only [Nat.pow_eq]; omega, by simp only [Nat.pow_eq]; omega⟩

end Update
end ThemedPrompt
namespace ThemedPrompt

/-- Bytes that are text are what the text is encoded as. -/
theorem Utf8.encode_of_decode? {bytes : Bytes} {t : Text} (h : decode? bytes = some t) :
    encode t = bytes := by
  obtain ⟨chars, hchars, rfl⟩ := Option.map_eq_some_iff.1 h
  have hencode : (encode chars.toList).toByteArray = bytes.toByteArray := by
    have hget := ByteArray.utf8Encode_get_utf8Decode? (b := bytes.toByteArray) (h := by simp [hchars])
    simp only [hchars, Option.get_some] at hget
    exact hget
  exact List.toByteArray_inj.1 hencode

theorem Pathname.ofText_of_text? {p : Pathname} {t : Text} (h : p.text? = some t) : ofText t = p := by
  rw [ofText, Utf8.encode_of_decode? h]

namespace Config
open Document

theorem toText?_eq_none_iff (format : Format) (c : Config) :
    c.toText? format = none ↔ ∃ p, c.themePath = some p ∧ p.text? = none := by
  rw [toText?, Option.map_eq_none_iff, toEntries?, Option.map_eq_none_iff, themeEntry?]
  cases c.themePath with
  | none => simp
  | some p => simp

/-- The entries of a configuration whose theme path is the given text, if there is one. -/
def entriesWith (c : Config) (theme : Option Text) : List (Text × Document) :=
  entryOf "theme_path".toList .text theme ++ [("fallback_prompt".toList, .text c.fallback),
    ("log_level".toList, .text c.logLevel), ("context".toList, c.context.toDocument)]

theorem map_fst_entriesWith (c : Config) (theme : Option Text) :
    ((c.entriesWith theme).map Prod.fst).Sublist fieldNames := by
  rw [entriesWith, List.map_append]
  exact (map_fst_entryOf _ _ theme).append (List.Sublist.refl _)

theorem exists_of_toEntries? {c : Config} {entries : List (Text × Document)}
    (h : c.toEntries? = some entries) :
    ∃ theme : Option Text, c.themePath = theme.map Pathname.ofText ∧ entries = c.entriesWith theme := by
  obtain ⟨front, hfront, rfl⟩ := Option.map_eq_some_iff.1 h
  rw [ themeEntry?] at hfront
  cases hpath : c.themePath with
  | none =>
    rw [hpath] at hfront
    cases hfront
    exact ⟨none, rfl, rfl⟩
  | some p =>
    rw [hpath] at hfront
    obtain ⟨t, ht, rfl⟩ := Option.map_eq_some_iff.1 hfront
    exact ⟨some t, by rw [Option.map_some, Pathname.ofText_of_text? ht], rfl⟩

/-- The entries are read as the configuration, whatever may be left unread. -/
theorem ofDocument?_entriesWith {c : Config} {theme : Option Text}
    (h : c.themePath = theme.map Pathname.ofText) (unread : Unread) :
    ofDocument? unread (.record (c.entriesWith theme)) = some c := by
  have hentries : (Document.record (c.entriesWith theme)).entries? unread fieldNames =
      some (c.entriesWith theme) :=
    entries?_of_names
      (fun entry hentry => (c.map_fst_entriesWith theme).subset (List.mem_map_of_mem hentry)) unread
  have hpath : field? (c.entriesWith theme) ["theme_path".toList]
      (optional? fun d => d.text?.map Pathname.ofText) (some none) = some c.themePath := by
    rw [h]
    have hvalues : valuesOf ["theme_path".toList] (c.entriesWith theme) =
        (theme.map Document.text).toList := by simp [entriesWith]
    exact field?_of_valuesOf hvalues fun t => rfl
  have hfallback : valuesOf ["fallback_prompt".toList] (c.entriesWith theme) = [.text c.fallback] := by
    simp [entriesWith]
  have hlogLevel : valuesOf ["log_level".toList] (c.entriesWith theme) = [.text c.logLevel] := by
    simp [entriesWith]
  have hcontext : valuesOf ["context".toList] (c.entriesWith theme) = [c.context.toDocument] := by
    simp [entriesWith]
  rw [ofDocument?, hentries]
  simp only [Option.bind_eq_bind, Option.bind_some]
  rw [hpath, field?_of_single hfallback, field?_of_single hlogLevel, field?_of_single hcontext,
    c.context.ofDocument?_toDocument unread]
  rfl

theorem plain_entriesWith_json (c : Config) (theme : Option Text) :
    Json.Plain (.record (c.entriesWith theme)) := by
  refine Json.plainEntries_iff.2 fun entry hentry => ?_
  rcases List.mem_append.1 hentry with hentry | hentry
  · obtain ⟨t, -, rfl⟩ := mem_entryOf hentry
    trivial
  · simp only [List.mem_cons, List.not_mem_nil, or_false] at hentry
    rcases hentry with rfl | rfl | rfl
    · trivial
    · trivial
    · exact c.context.plain_json

/-- The entries but the last one are values, and the last one is a section. -/
theorem entriesWith_eq_entriesOf (c : Config) (theme : Option Text) :
    c.entriesWith theme = Toml.entriesOf (entryOf "theme_path".toList .text theme ++
      [("fallback_prompt".toList, .text c.fallback), ("log_level".toList, .text c.logLevel)])
      [("context".toList, c.context.entries)] := by
  simp [entriesWith, Toml.entriesOf, Update.toDocument_eq]

theorem plain_entriesWith_toml (c : Config) (theme : Option Text) :
    Toml.Plain (entryOf "theme_path".toList .text theme ++
      [("fallback_prompt".toList, .text c.fallback), ("log_level".toList, .text c.logLevel)])
      [("context".toList, c.context.entries)] where
  inlineValues := by
    intro entry hentry
    rcases List.mem_append.1 hentry with hentry | hentry
    · obtain ⟨t, -, rfl⟩ := mem_entryOf hentry
      exact ⟨(by decide : Toml.Bare "theme_path".toList), trivial⟩
    · simp only [List.mem_cons, List.not_mem_nil, or_false] at hentry
      rcases hentry with rfl | rfl
      · exact ⟨(by decide : Toml.Bare "fallback_prompt".toList), trivial⟩
      · exact ⟨(by decide : Toml.Bare "log_level".toList), trivial⟩
  bareKeys := by
    intro s hs
    rw [List.mem_singleton.1 hs]
    exact (by decide : Toml.Bare "context".toList)
  inlineSections := by
    intro s hs
    rw [List.mem_singleton.1 hs]
    exact c.context.inlineEntries
  distinctInside := by
    intro s hs
    rw [List.mem_singleton.1 hs]
    exact c.context.map_fst_entries.nodup (by decide)
  distinct := by
    have hnames := (c.map_fst_entriesWith theme).nodup (by decide)
    rw [entriesWith_eq_entriesOf] at hnames
    simpa [Toml.entriesOf] using hnames

/-- What is written in a format is read back in it. -/
theorem ofText?_toText? {format : Format} {c : Config} {t : Text} (h : c.toText? format = some t) :
    ofText? format t = some c := by
  obtain ⟨entries, hentries, rfl⟩ := Option.map_eq_some_iff.1 h
  obtain ⟨theme, htheme, rfl⟩ := exists_of_toEntries? hentries
  cases format with
  | toml =>
    rw [ofText?]
    dsimp only
    rw [entriesWith_eq_entriesOf, Toml.read?_write (c.plain_entriesWith_toml theme),
      Option.bind_some, ← entriesWith_eq_entriesOf, ofDocument?_entriesWith htheme]
  | json =>
    rw [ofText?]
    dsimp only
    rw [Json.parse?_pretty (c.plain_entriesWith_json theme), Option.bind_some,
      ofDocument?_entriesWith htheme]

end Config
end ThemedPrompt
