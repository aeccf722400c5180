import ThemedPrompt.Json.Reader
import ThemedPrompt.Proofs.Json.WrittenTokens

/-! # Written documents of JSON

A document that is written is read back, in every layout whose gaps are blank. Doubles are left out,
and so is what has no form in JSON.
-/
namespace ThemedPrompt
namespace Json

mutual

/-- What is written without loss. -/
def Plain : Document → Prop
  | .null => True
  | .bool _ => True
  | .int n => Fits n
  | .text _ => True
  | .list items => PlainItems items
  | .record entries => PlainEntries entries
  | _ => False

def PlainItems : List Document → Prop
  | [] => True
  | d :: ds => Plain d ∧ PlainItems ds

def PlainEntries : List (Text × Document) → Prop
  | [] => True
  | (_, d) :: rest => Plain d ∧ PlainEntries rest

end

theorem plainEntries_iff {entries : List (Text × Document)} :
    PlainEntries entries ↔ ∀ entry ∈ entries, Plain entry.2 := by
  induction entries with
  | nil => simp [PlainEntries]
  | cons entry entries ih => rw [PlainEntries, ih, List.forall_mem_cons]

/-- Reads a text to its end in a given state. -/
def readFrom (s : Expecting) (t : Text) : Option Expecting :=
  (tokens? t).bind fun ts => ts.foldlM Expecting.step s

theorem parse?_eq (t : Text) : parse? t = (readFrom (.value []) t).bind Expecting.finished? := by
  rw [parse?, readFrom, Option.bind_assoc]
  rfl

theorem readFrom_nil (s : Expecting) : readFrom s [] = some s := by
  rw [readFrom, tokens?]
  rfl

section
variable {s s' : Expecting} {tok : Token} {c : Char} {t rest : Text}

theorem readFrom_token (hspace : ∀ c ∈ t.head?, isSpace c = false)
    (htok : token? t = some (tok, rest)) (hstep : s.step tok = some s') :
    readFrom s t = readFrom s' rest := by
  cases t with
  | nil => cases htok
  | cons c t =>
    rw [readFrom, readFrom, tokens?, if_neg (by simp [hspace c rfl])]
    split
    · next tok' rest' htok' =>
      rw [htok] at htok'
      cases htok'
      rw [Option.bind_map]
      apply congrArg
      funext ts
      simp only [Function.comp_apply, List.foldlM_cons, hstep]
      rfl
    · next hnone => simp [htok] at hnone

theorem readFrom_blank (ht : ∀ c ∈ t, isSpace c = true) (s : Expecting) (rest : Text) :
    readFrom s (t ++ rest) = readFrom s rest := by
  induction t with
  | nil => rfl
  | cons c t ih =>
    obtain ⟨hc, ht⟩ := List.forall_mem_cons.1 ht
    rw [← ih ht, List.cons_append, readFrom, tokens?, if_pos hc]
    rfl

/-- A mark is a token of one character. -/
theorem readFrom_mark (hspace : isSpace c = false) (htok : token? (c :: t) = some (tok, t))
    (hstep : s.step tok = some s') : readFrom s (c :: t) = readFrom s' t :=
  readFrom_token (by rintro d ⟨⟩; exact hspace) htok hstep

theorem readFrom_quoted (hstep : s.step (.string (t.map Char.toNat)) = some s') (rest : Text) :
    readFrom s (quoted t ++ rest) = readFrom s' rest :=
  readFrom_token (by rintro c ⟨⟩; rfl) (token?_quoted t rest) hstep

end

/-- The states in which a value may start on top of a stack. -/
def Begins (s : Expecting) (stack : List Frame) : Prop :=
  ∀ tok, tok ≠ .closeList → s.step tok = Expecting.start stack tok

theorem begins_value (stack : List Frame) : Begins (.value stack) stack := fun _ _ => rfl

theorem begins_firstItem (stack : List Frame) : Begins (.firstItem stack) (.list [] :: stack) := by
  intro tok htok
  cases tok with
  | closeList => exact absurd rfl htok
  | _ => rfl

/-- Entries with the keys as they are read. -/
def named (entries : List (Text × Document)) : List (Option Text × Document) :=
  entries.map fun (key, d) => (some key, d)

theorem mapM_named (entries : List (Text × Document)) :
    (named entries).mapM (fun entry => entry.1.map (·, entry.2)) = some entries := by
  induction entries with
  | nil => rfl
  | cons entry entries ih =>
    rw [named] at ih ⊢
    rw [List.map_cons, List.mapM_cons, ih]
    rfl

theorem recordOf_named (entries : List (Text × Document)) :
    recordOf (named entries) = .record entries.reverse := by
  unfold recordOf
  split
  · next read hread =>
    cases (mapM_named entries).symm.trans hread
    rfl
  · next hnone => cases (mapM_named entries).symm.trans hnone

/-- Gaps of blanks only. -/
structure Layout.Blank (layout : Layout) : Prop where
  lineBreak : ∀ depth, ∀ c ∈ layout.lineBreak depth, isSpace c = true
  afterColon : ∀ c ∈ layout.afterColon, isSpace c = true

theorem Layout.blank_indented : Layout.indented.Blank := by
  constructor
  · intro depth c hc
    rcases List.mem_cons.1 hc with rfl | hc
    · rfl
    · rw [List.eq_of_mem_replicate hc]
      rfl
  · intro c hc
    rw [List.mem_singleton.1 hc]
    rfl

theorem Ends.blank_append {blank rest : Text} (hblank : ∀ c ∈ blank, isSpace c = true)
    (h : Ends rest) : Ends (blank ++ rest) := by
  cases blank with
  | nil => exact h
  | cons c blank =>
    rintro d ⟨⟩
    exact .inr (.inr (.inr (hblank c List.mem_cons_self)))

theorem ends_mark {c : Char} (hc : c = ',' ∨ c = ']' ∨ c = '\x7d') (t : Text) : Ends (c :: t) := by
  rintro d ⟨⟩
  rcases hc with rfl | rfl | rfl
  · exact .inl rfl
  · exact .inr (.inl rfl)
  · exact .inr (.inr (.inl rfl))

section
variable {layout : Layout} {s : Expecting} {stack : List Frame} {rest : Text}

/-- A value without parts is one token. -/
theorem readFrom_scalar {d : Document} {tok : Token} {t : Text} (hs : Begins s stack)
    (hspace : ∀ c ∈ (t ++ rest).head?, isSpace c = false) (htok : token? (t ++ rest) = some (tok, rest))
    (hstart : Expecting.start stack tok = some (.continuation d stack)) :
    readFrom s (t ++ rest) = readFrom (.continuation d stack) rest := by
  refine readFrom_token hspace htok ?_
  rw [hs tok (by rintro rfl; cases hstart), hstart]

theorem readFrom_ofInt {n : Int} (hn : Fits n) (hs : Begins s stack) (hrest : Ends rest) :
    readFrom s (Text.ofInt n ++ rest) = readFrom (.continuation (.int n) stack) rest := by
  refine readFrom_scalar hs ?_ (token?_ofInt hn hrest) rfl
  obtain ⟨c, t, hfront⟩ := List.exists_cons_of_ne_nil (Text.ofInt_ne_nil n)
  have hc := Text.mem_ofInt c (by rw [hfront]; exact List.mem_cons_self)
  rw [hfront]
  rintro d ⟨⟩
  refine eq_false_of_ne_true fun hspace => ?_
  simp only [isSpace, Bool.or_eq_true, decide_eq_true_eq] at hspace
  rcases hspace with ((rfl | rfl) | rfl) | rfl <;> exact absurd hc (by decide)

theorem start_string (t : Text) : Expecting.start stack (.string (t.map Char.toNat)) =
    some (.continuation (.text t) stack) := by
  rw [Expecting.start, stringOf, textOfUnits?_map_toNat]

end

section
variable {blank : Text} (hblank : ∀ c ∈ blank, isSpace c = true)
include hblank

theorem ends_writeItems (layout : Layout) (depth : Nat) (ds : List Document) (rest : Text) :
    Ends (writeItems layout depth ds ++ (blank ++ ']' :: rest)) := by
  cases ds with
  | nil =>
    rw [writeItems, List.nil_append]
    exact (ends_mark (.inr (.inl rfl)) rest).blank_append hblank
  | cons d ds => exact ends_mark (.inl rfl) _

theorem ends_writeEntries (layout : Layout) (depth : Nat) (entries : List (Text × Document)) (rest : Text) :
    Ends (writeEntries layout depth entries ++ (blank ++ '\x7d' :: rest)) := by
  cases entries with
  | nil =>
    rw [writeEntries, List.nil_append]
    exact (ends_mark (.inr (.inr rfl)) rest).blank_append hblank
  | cons entry entries => exact ends_mark (.inl rfl) _

end

mutual

/-- Whatever containers are open, a written value is read as the document that it was. -/
theorem readFrom_write {layout : Layout} (hlayout : layout.Blank) (depth : Nat) {s : Expecting}
    {stack : List Frame} (hs : Begins s stack) {rest : Text} (hrest : Ends rest) :
    (d : Document) → Plain d →
      readFrom s (write layout depth d ++ rest) = readFrom (.continuation d stack) rest
  | .null, _ => readFrom_scalar hs (by rintro c ⟨⟩; rfl) rfl rfl
  | .bool true, _ => readFrom_scalar hs (by rintro c ⟨⟩; rfl) rfl rfl
  | .bool false, _ => readFrom_scalar hs (by rintro c ⟨⟩; rfl) rfl rfl
  | .int _, hd => readFrom_ofInt hd hs hrest
  | .text t, _ => readFrom_scalar hs (by rintro c ⟨⟩; rfl) (token?_quoted t rest) (start_string t)
  | .list [], _ => by
    have hopen : s.step .openList = some (.firstItem stack) := hs .openList (by rintro ⟨⟩)
    change readFrom s ('[' :: ']' :: rest) = _
    rw [readFrom_mark rfl rfl hopen, readFrom_mark rfl rfl rfl]
  | .list (d :: ds), ⟨hd, hds⟩ => by
    have hopen : s.step .openList = some (.firstItem stack) := hs .openList (by rintro ⟨⟩)
    have hends := ends_writeItems (hlayout.lineBreak depth) layout (depth + 1) ds rest
    simp only [write, List.cons_append, List.append_assoc, List.nil_append]
    rw [readFrom_mark rfl rfl hopen, readFrom_blank (hlayout.lineBreak (depth + 1)),
      readFrom_write hlayout (depth + 1) (begins_firstItem stack) hends d hd,
      readFrom_writeItems hlayout (depth + 1) (hlayout.lineBreak depth) [] d rest ds hds]
    rfl
  | .record [], _ => by
    have hopen : s.step .openRecord = some (.firstKey stack) := hs .openRecord (by rintro ⟨⟩)
    change readFrom s ('\x7b' :: '\x7d' :: rest) = _
    rw [readFrom_mark rfl rfl hopen, readFrom_mark rfl rfl rfl]
  | .record ((key, d) :: entries), ⟨hd, hentries⟩ => by
    have hopen : s.step .openRecord = some (.firstKey stack) := hs .openRecord (by rintro ⟨⟩)
    have hkey : Expecting.step (.firstKey stack) (.string (key.map Char.toNat)) =
        some (.colon (named []) (some key) stack) := by
      rw [Expecting.step, textOfUnits?_map_toNat]
      rfl
    have hends := ends_writeEntries (hlayout.lineBreak depth) layout (depth + 1) entries rest
    simp only [write, List.cons_append, List.append_assoc, List.nil_append]
    rw [readFrom_mark rfl rfl hopen, readFrom_blank (hlayout.lineBreak (depth + 1)),
      readFrom_quoted hkey, readFrom_mark rfl rfl rfl, readFrom_blank hlayout.afterColon,
      readFrom_write hlayout (depth + 1) (begins_value _) hends d hd,
      readFrom_writeEntries hlayout (depth + 1) (hlayout.lineBreak depth) [] key d rest entries hentries]
    rfl

theorem readFrom_writeItems {layout : Layout} (hlayout : layout.Blank) (depth : Nat) {blank : Text}
    (hblank : ∀ c ∈ blank, isSpace c = true) (before : List Document) (last : Document)
    {stack : List Frame} (rest : Text) : (ds : List Document) → PlainItems ds →
      readFrom (.continuation last (.list before :: stack))
          (writeItems layout depth ds ++ (blank ++ ']' :: rest)) =
        readFrom (.continuation (.list (before.reverse ++ last :: ds)) stack) rest
  | [], _ => by
    rw [writeItems, List.nil_append, readFrom_blank hblank, readFrom_mark rfl rfl rfl,
      List.reverse_cons]
  | d :: ds, ⟨hd, hds⟩ => by
    have hends := ends_writeItems hblank layout depth ds rest
    simp only [writeItems, List.cons_append, List.append_assoc]
    rw [readFrom_mark rfl rfl rfl, readFrom_blank (hlayout.lineBreak depth),
      readFrom_write hlayout depth (begins_value _) hends d hd,
      readFrom_writeItems hlayout depth hblank (last :: before) d rest ds hds, List.reverse_cons,
      List.append_assoc]
    rfl

theorem readFrom_writeEntries {layout : Layout} (hlayout : layout.Blank) (depth : Nat) {blank : Text}
    (hblank : ∀ c ∈ blank, isSpace c = true) (before : List (Text × Document)) (name : Text)
    (last : Document) {stack : List Frame} (rest : Text) :
    (entries : List (Text × Document)) → PlainEntries entries →
      readFrom (.continuation last (.record (named before) (some name) :: stack))
          (writeEntries layout depth entries ++ (blank ++ '\x7d' :: rest)) =
        readFrom (.continuation (.record (before.reverse ++ (name, last) :: entries)) stack) rest
  | [], _ => by
    rw [writeEntries, List.nil_append, readFrom_blank hblank, readFrom_mark rfl rfl rfl]
    change readFrom (.continuation (recordOf (named ((name, last) :: before))) stack) rest = _
    rw [recordOf_named, List.reverse_cons]
  | (key, d) :: entries, ⟨hd, hentries⟩ => by
    have hkey : Expecting.step (.key (named ((name, last) :: before)) stack)
        (.string (key.map Char.toNat)) =
          some (.colon (named ((name, last) :: before)) (some key) stack) := by
      rw [Expecting.step, textOfUnits?_map_toNat]
    have hcomma : Expecting.step (.continuation last (.record (named before) (some name) :: stack))
        .comma = some (.key (named ((name, last) :: before)) stack) := rfl
    have hends := ends_writeEntries hblank layout depth entries rest
    simp only [writeEntries, List.cons_append, List.append_assoc]
    rw [readFrom_mark rfl rfl hcomma, readFrom_blank (hlayout.lineBreak depth), readFrom_quoted hkey,
      readFrom_mark rfl rfl rfl, readFrom_blank hlayout.afterColon,
      readFrom_write hlayout depth (begins_value _) hends d hd,
      readFrom_writeEntries hlayout depth hblank ((name, last) :: before) key d rest entries hentries,
      List.reverse_cons, List.append_assoc]
    rfl

end

/-- What is written is read back. -/
theorem parse?_pretty {d : Document} (hd : Plain d) : parse? (pretty d) = some d := by
  have hend : Ends [] := by rintro c ⟨⟩
  have h := readFrom_write Layout.blank_indented 0 (begins_value []) hend d hd
  rw [List.append_nil] at h
  rw [parse?_eq, pretty, h, readFrom_nil]
  rfl

end Json
end ThemedPrompt
