import ThemedPrompt.Proofs.Config.WrittenDocuments
import ThemedPrompt.Proofs.Json.SettledRecords

/-! # The two readers of updates

Where no second name is used, the reader that skips what does not fit gives what the strict reader
gives for the record without these entries. So the two agree on every record that the strict one
takes, and both read back what an update is written as.
-/
namespace ThemedPrompt
namespace Document

section
variable {α : Type} {name second : Text} {entries : List (Text × Document)}

theorem valuesOf_filter (name : Text) (keep : Text × Document → Bool)
    (entries : List (Text × Document)) :
    valuesOf [name] (entries.filter keep) =
      (valuesOf [name] entries).filter fun d => keep (name, d) := by
  induction entries with
  | nil => rfl
  | cons entry entries ih =>
    obtain ⟨key, d⟩ := entry
    rw [valuesOf_cons, List.filter_append, ← ih, List.filter_cons]
    by_cases hkey : key = name
    · subst hkey
      cases hkeep : keep (key, d) with
      | false => simp [hkeep]
      | true => simp [hkeep]
    · cases keep (key, d) with
      | false => simp [hkey]
      | true => simp [hkey]

theorem valuesOf_of_notMem (h : name ∉ entries.map Prod.fst) : valuesOf [name] entries = [] := by
  rw [valuesOf, List.map_eq_nil_iff, List.filter_eq_nil_iff]
  intro entry hentry hname
  have heq : entry.1 = name := by simpa using hname
  exact h (heq ▸ List.mem_map_of_mem hentry)

theorem valuesOf_of_nodup (h : (entries.map Prod.fst).Nodup) (name : Text) :
    valuesOf [name] entries = [] ∨ ∃ d, valuesOf [name] entries = [d] := by
  induction entries with
  | nil => exact .inl rfl
  | cons entry entries ih =>
    obtain ⟨hnew, hrest⟩ := List.nodup_cons.1 h
    rw [valuesOf_cons]
    by_cases hname : entry.1 = name
    · subst hname
      rw [valuesOf_of_notMem hnew]
      exact .inr ⟨entry.2, by simp⟩
    · simpa [hname] using ih hrest

theorem valuesOf_pair (h : second ∉ entries.map Prod.fst) :
    valuesOf [name, second] entries = valuesOf [name] entries := by
  rw [valuesOf, valuesOf]
  congr 1
  refine List.filter_congr ?_
  intro entry hentry
  have hne : entry.1 ≠ second := fun heq => h (heq ▸ List.mem_map_of_mem hentry)
  simp [hne]

/-- A null is no value, to a reader that does not take it for one. -/
theorem optional?_cases {read : Document → Option α} (hnull : read .null = none) (d : Document) :
    optional? read d = some (read d) ∨ optional? read d = none ∧ read d = none := by
  cases d with
  | null => exact .inl (congrArg some hnull.symm)
  | _ =>
    rw [optional?]
    · cases read _ with
      | none => exact .inr ⟨rfl, rfl⟩
      | some v => exact .inl rfl
    · rintro ⟨⟩

/-- A field that the strict reader takes is the one that the lenient reader takes. -/
theorem bind_get?_of_field? {read : Document → Option α} (hnull : read .null = none)
    (hsecond : second ∉ entries.map Prod.fst) {value : Option α}
    (h : field? entries [name, second] (optional? read) (some none) = some value) :
    ((record entries).get? name).bind read = value := by
  rw [field?, valuesOf_pair hsecond] at h
  rw [get?, lookup_reverse]
  split at h
  · next hvalues =>
    rw [hvalues]
    exact Option.some.inj h
  · next d hvalues =>
    rw [hvalues]
    rcases optional?_cases hnull d with hread | ⟨hread, -⟩
    · rw [hread] at h
      exact Option.some.inj h
    · rw [hread] at h
      cases h
  · cases h

/-- A field is read alike whether an entry that does not fit is skipped or is not there. -/
theorem field?_filter (read : Document → Option α) {keep : Text × Document → Bool}
    (hnull : read .null = none) (hnodup : (entries.map Prod.fst).Nodup)
    (hsecond : second ∉ entries.map Prod.fst)
    (hkeep : ∀ d, keep (name, d) = (optional? read d).isSome) :
    field? (entries.filter keep) [name, second] (optional? read) (some none) =
      some (((record entries).get? name).bind read) := by
  have hless : second ∉ (entries.filter keep).map Prod.fst := fun h =>
    hsecond ((List.filter_sublist.map Prod.fst).subset h)
  rw [field?, valuesOf_pair hless, valuesOf_filter, get?, lookup_reverse]
  rcases valuesOf_of_nodup hnodup name with hvalues | ⟨d, hvalues⟩
  · rw [hvalues]
    rfl
  · rw [hvalues]
    rcases optional?_cases hnull d with hread | ⟨hread, hnone⟩
    · rw [List.filter_cons_of_pos (by rw [hkeep, hread]; rfl)]
      exact hread
    · rw [List.filter_cons_of_neg (by rw [hkeep, hread]; exact Bool.false_ne_true)]
      exact congrArg some hnone.symm

theorem field?_singleton {read : Document → Option α} {default : Option α} (key : Text)
    (d : Document) (names : List Text) :
    field? [(key, d)] names read default = if names.contains key then read d else default := by
  rw [field?, valuesOf_cons, valuesOf_nil, List.append_nil]
  by_cases h : key ∈ names
  · simp [h]
  · simp [h]

end

end Document

namespace Update
open Document

def textNames : List Text := (Context.fieldNames.take 6).map Prod.fst

def flagNames : List Text := ["WSL".toList, "Root".toList]

def secondNames : List Text := Context.fieldNames.map Prod.snd

/-- The strict reader takes the entry by itself. -/
def accepts (entry : Text × Document) : Bool := (ofDocument? .entries (.record [entry])).isSome

/-- An entry that is neither null nor of the type of its field: a number that is no integer does
not fit, nor does an integer of more than 32 bits. -/
inductive Refused : Text × Document → Prop
  | text {name : Text} {d : Document} (hname : name ∈ textNames) (hnull : d ≠ .null)
      (hmisfit : ∀ t, d ≠ .text t) : Refused (name, d)
  | flag {name : Text} {d : Document} (hname : name ∈ flagNames) (hnull : d ≠ .null)
      (hmisfit : ∀ b, d ≠ .bool b) : Refused (name, d)
  | code {d : Document} (hnull : d ≠ .null)
      (hmisfit : ∀ n : Int, -2 ^ 31 ≤ n → n < 2 ^ 31 → d ≠ .int n) : Refused ("Code".toList, d)

/-- Each field of a record as the strict reader takes it. -/
structure ReadsStrictly (entries : List (Text × Document)) (u : Update) : Prop where
  userName : field? entries ["UserName".toList, "user_name".toList] (optional? text?) (some none) =
    some u.userName
  hostName : field? entries ["HostName".toList, "host_name".toList] (optional? text?) (some none) =
    some u.hostName
  shell : field? entries ["Shell".toList, "shell".toList] (optional? text?) (some none) =
    some u.shell
  workingDirectory : field? entries ["PWD".toList, "pwd".toList] (optional? text?) (some none) =
    some u.workingDirectory
  home : field? entries ["HOME".toList, "home".toList] (optional? text?) (some none) = some u.home
  system : field? entries ["OS".toList, "os".toList] (optional? text?) (some none) = some u.system
  wsl : field? entries ["WSL".toList, "wsl".toList] (optional? bool?) (some none) = some u.wsl
  root : field? entries ["Root".toList, "root".toList] (optional? bool?) (some none) = some u.root
  code : field? entries ["Code".toList, "code".toList] (optional? int32?) (some none) = some u.code

theorem ofDocument?_eq_some_iff (entries : List (Text × Document)) (u : Update) :
    ofDocument? .entries (.record entries) = some u ↔ ReadsStrictly entries u := by
  rw [ofDocument?, entries?, if_pos (.inl rfl)]
  simp only [Option.bind_eq_bind, Option.bind_some, Option.bind_eq_some_iff]
  constructor
  · rintro ⟨_, h1, _, h2, _, h3, _, h4, _, h5, _, h6, _, h7, _, h8, _, h9, heq⟩
    cases heq
    exact ⟨h1, h2, h3, h4, h5, h6, h7, h8, h9⟩
  · rintro ⟨h1, h2, h3, h4, h5, h6, h7, h8, h9⟩
    exact ⟨_, h1, _, h2, _, h3, _, h4, _, h5, _, h6, _, h7, _, h8, _, h9, rfl⟩

section
variable {name : Text} {entries : List (Text × Document)}

/-- An entry is taken if the one field that it is for takes its value. -/
theorem accepts_eq_isSome {α : Type} {read : Document → Option α} (put : α → Update) {d : Document}
    (h : ofDocument? .entries (.record [(name, d)]) = (read d).bind fun v => some (put v)) :
    accepts (name, d) = (read d).isSome := by
  rw [accepts, h]
  cases read d with
  | none => rfl
  | some v => rfl

theorem accepts_of_text (hname : name ∈ textNames) (d : Document) :
    accepts (name, d) = (optional? text? d).isSome := by
  have hcases : name = "UserName".toList ∨ name = "HostName".toList ∨ name = "Shell".toList ∨
      name = "PWD".toList ∨ name = "HOME".toList ∨ name = "OS".toList := by
    simpa [textNames, Context.fieldNames] using hname
  rcases hcases with rfl | rfl | rfl | rfl | rfl | rfl
  · exact accepts_eq_isSome (fun v => { userName := v }) rfl
  · exact accepts_eq_isSome (fun v => { hostName := v }) rfl
  · exact accepts_eq_isSome (fun v => { shell := v }) rfl
  · exact accepts_eq_isSome (fun v => { workingDirectory := v }) rfl
  · exact accepts_eq_isSome (fun v => { home := v }) rfl
  · exact accepts_eq_isSome (fun v => { system := v }) rfl

theorem accepts_of_flag (hname : name ∈ flagNames) (d : Document) :
    accepts (name, d) = (optional? bool? d).isSome := by
  have hcases : name = "WSL".toList ∨ name = "Root".toList := by
    simpa [flagNames] using hname
  rcases hcases with rfl | rfl
  · exact accepts_eq_isSome (fun v => { wsl := v }) rfl
  · exact accepts_eq_isSome (fun v => { root := v }) rfl

theorem accepts_of_code (d : Document) :
    accepts ("Code".toList, d) = (optional? int32? d).isSome :=
  accepts_eq_isSome (fun v => { code := v }) rfl

theorem accepts_of_unknown (hmain : name ∉ Context.fieldNames.map Prod.fst)
    (hsecond : name ∉ secondNames) (d : Document) : accepts (name, d) = true := by
  have hnone {α : Type} (read : Document → Option (Option α)) {main second : Text}
      (hfield : (main, second) ∈ Context.fieldNames) :
      field? [(name, d)] [main, second] read (some none) = some none := by
    rw [field?_singleton, if_neg]
    intro h
    have heq : name = main ∨ name = second := by simpa using h
    rcases heq with rfl | rfl
    · exact hmain (List.mem_map_of_mem hfield)
    · exact hsecond (List.mem_map_of_mem hfield)
  have hreads : ReadsStrictly [(name, d)] {} := by
    constructor
    all_goals exact hnone _ (by decide)
  rw [accepts, (ofDocument?_eq_some_iff _ _).2 hreads]
  rfl

theorem isSome_optional?_text_iff {d : Document} :
    (optional? text? d).isSome = false ↔ d ≠ .null ∧ ∀ t, d ≠ .text t := by
  cases d <;> simp [optional?, text?]

theorem isSome_optional?_bool_iff {d : Document} :
    (optional? bool? d).isSome = false ↔ d ≠ .null ∧ ∀ b, d ≠ .bool b := by
  cases d <;> simp [optional?, bool?]

theorem isSome_optional?_int32_iff {d : Document} : (optional? int32? d).isSome = false ↔
    d ≠ .null ∧ ∀ n : Int, -2 ^ 31 ≤ n → n < 2 ^ 31 → d ≠ .int n := by
  cases d with
  | int n =>
    simp only [optional?, int32?]
    split <;> simp <;> omega
  | _ => simp [optional?, int32?]

/-- The entries that the strict reader refuses, told by their values. -/
theorem accepts_eq_false_iff {d : Document} (hsecond : name ∉ secondNames) :
    accepts (name, d) = false ↔ Refused (name, d) := by
  constructor
  · intro h
    by_cases htext : name ∈ textNames
    · rw [accepts_of_text htext, isSome_optional?_text_iff] at h
      exact .text htext h.1 h.2
    by_cases hflag : name ∈ flagNames
    · rw [accepts_of_flag hflag, isSome_optional?_bool_iff] at h
      exact .flag hflag h.1 h.2
    by_cases hcode : name = "Code".toList
    · subst hcode
      rw [accepts_of_code, isSome_optional?_int32_iff] at h
      exact .code h.1 h.2
    · have hmain : name ∉ Context.fieldNames.map Prod.fst := by
        have hnames : Context.fieldNames.map Prod.fst =
            textNames ++ flagNames ++ ["Code".toList] := rfl
        rw [hnames]
        simp only [List.mem_append, List.mem_singleton, not_or]
        exact ⟨⟨htext, hflag⟩, hcode⟩
      rw [accepts_of_unknown hmain hsecond] at h
      cases h
  · intro h
    cases h with
    | text hname hnull hmisfit =>
      rw [accepts_of_text hname, isSome_optional?_text_iff]
      exact ⟨hnull, hmisfit⟩
    | flag hname hnull hmisfit =>
      rw [accepts_of_flag hname, isSome_optional?_bool_iff]
      exact ⟨hnull, hmisfit⟩
    | code hnull hmisfit =>
      rw [accepts_of_code, isSome_optional?_int32_iff]
      exact ⟨hnull, hmisfit⟩

/-- What the strict reader takes the lenient reader reads alike. -/
theorem ofDocument_of_ofDocument? {u : Update}
    (hsecond : ∀ second ∈ secondNames, second ∉ entries.map Prod.fst)
    (h : ofDocument? .entries (.record entries) = some u) : ofDocument (.record entries) = u := by
  have hreads := (ofDocument?_eq_some_iff entries u).1 h
  simp only [ofDocument]
  rw [bind_get?_of_field? rfl (hsecond _ (by decide)) hreads.userName,
    bind_get?_of_field? rfl (hsecond _ (by decide)) hreads.hostName,
    bind_get?_of_field? rfl (hsecond _ (by decide)) hreads.shell,
    bind_get?_of_field? rfl (hsecond _ (by decide)) hreads.workingDirectory,
    bind_get?_of_field? rfl (hsecond _ (by decide)) hreads.home,
    bind_get?_of_field? rfl (hsecond _ (by decide)) hreads.system,
    bind_get?_of_field? rfl (hsecond _ (by decide)) hreads.wsl,
    bind_get?_of_field? rfl (hsecond _ (by decide)) hreads.root,
    bind_get?_of_field? rfl (hsecond _ (by decide)) hreads.code]

/-- Skipping what does not fit is reading strictly without it. -/
theorem ofDocument?_filter (hnodup : (entries.map Prod.fst).Nodup)
    (hsecond : ∀ second ∈ secondNames, second ∉ entries.map Prod.fst) :
    ofDocument? .entries (.record (entries.filter accepts)) =
      some (ofDocument (.record entries)) := by
  have htext {main second : Text} (hmain : main ∈ textNames) (hs : second ∈ secondNames) :=
    field?_filter text? rfl hnodup (hsecond second hs) (accepts_of_text hmain)
  have hflag {main second : Text} (hmain : main ∈ flagNames) (hs : second ∈ secondNames) :=
    field?_filter bool? rfl hnodup (hsecond second hs) (accepts_of_flag hmain)
  have hcode := field?_filter int32? rfl hnodup (hsecond "code".toList (by decide))
    accepts_of_code
  rw [ofDocument?_eq_some_iff]
  constructor
  case code => exact hcode
  case wsl => exact hflag (by decide) (by decide)
  case root => exact hflag (by decide) (by decide)
  all_goals exact htext (by decide) (by decide)

/-- No update is written under second names. -/
theorem notMem_second_entries (u : Update) :
    ∀ second ∈ secondNames, second ∉ u.entries.map Prod.fst := by
  intro second hsecond hmem
  have hmain := u.map_fst_entries.subset hmem
  have hapart : ∀ second ∈ secondNames, second ∉ Context.fieldNames.map Prod.fst := by decide
  exact hapart second hsecond hmain

theorem ofDocument_toDocument (u : Update) : ofDocument u.toDocument = u :=
  ofDocument_of_ofDocument? u.notMem_second_entries (ofDocument?_toDocument u .entries)

theorem read?_pretty_toDocument (u : Update) :
    Json.read? (Json.pretty u.toDocument) = some u.toDocument := by
  have hnodup : (u.entries.map Prod.fst).Nodup := by
    have hnames : (Context.fieldNames.map Prod.fst).Nodup := by decide
    exact hnames.sublist u.map_fst_entries
  refine Json.read?_pretty u.plain_json hnodup ?_
  intro entry hentry
  rcases mem_entries hentry with ⟨t, h⟩ | ⟨b, h⟩ | ⟨n, h⟩
  all_goals
    rw [h]
    trivial

end

/-- The lenient reader is the strict one without what does not fit, and both read back what an
update is written as. -/
theorem ofDocument?_filter_and_toDocument :
    (∀ entries : List (Text × Document), (entries.map Prod.fst).Nodup →
      (∀ second ∈ secondNames, second ∉ entries.map Prod.fst) →
        (∀ entry ∈ entries, accepts entry = false ↔ Refused entry) ∧
        ofDocument? .entries (.record (entries.filter accepts)) =
          some (ofDocument (.record entries)) ∧
        ∀ u, ofDocument? .entries (.record entries) = some u → ofDocument (.record entries) = u) ∧
    (∀ t entries, Json.read? t = some (.record entries) → (entries.map Prod.fst).Nodup) ∧
    ∀ u : Update, ofDocument? .entries u.toDocument = some u ∧ ofDocument u.toDocument = u ∧
      (Json.parse? (Json.pretty u.toDocument)).bind (ofDocument? .entries) = some u ∧
      (Json.read? (Json.pretty u.toDocument)).map ofDocument = some u := by
  refine ⟨?_, fun t entries h => Json.nodup_of_read? h, ?_⟩
  · intro entries hnodup hsecond
    refine ⟨?_, ofDocument?_filter hnodup hsecond, fun u h => ofDocument_of_ofDocument? hsecond h⟩
    rintro ⟨name, d⟩ hentry
    exact accepts_eq_false_iff fun h => hsecond name h (List.mem_map_of_mem hentry)
  · intro u
    refine ⟨ofDocument?_toDocument u .entries, ofDocument_toDocument u, ?_, ?_⟩
    · rw [Json.parse?_pretty u.plain_json, Option.bind_some, ofDocument?_toDocument]
    · rw [read?_pretty_toDocument, Option.map_some, ofDocument_toDocument]

/-- A number that is no integer, one of more than 32 bits and a text for a flag, among fields that
fit. -/
def misfitUpdate : List (Text × Document) :=
  [("UserName".toList, .text "alice".toList), ("Root".toList, .text "yes".toList),
    ("Shell".toList, .null), ("Code".toList, .int 2147483648),
    ("HOME".toList, .float ⟨false, ⟨1, 0⟩⟩), ("Theme".toList, .int 1)]

theorem ofDocument?_filter_misfitUpdate :
    (misfitUpdate.map Prod.fst).Nodup ∧
      (∀ second ∈ secondNames, second ∉ misfitUpdate.map Prod.fst) ∧
      ofDocument? .entries (.record misfitUpdate) = none ∧
      ofDocument? .entries (.record (misfitUpdate.filter accepts)) =
        some { userName := some "alice".toList } := by
  have hnodup : (misfitUpdate.map Prod.fst).Nodup := by decide
  have hsecond : ∀ second ∈ secondNames, second ∉ misfitUpdate.map Prod.fst := by decide
  have hfilter := (ofDocument?_filter_and_toDocument.1 misfitUpdate hnodup hsecond).2.1
  refine ⟨hnodup, hsecond, by decide, ?_⟩
  rw [hfilter]
  decide

end Update
end ThemedPrompt
