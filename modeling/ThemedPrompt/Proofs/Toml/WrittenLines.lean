import ThemedPrompt.Proofs.Text.Numeral
import ThemedPrompt.Proofs.Toml.WrittenStrings
import ThemedPrompt.Toml.Reader

/-! # Written lines of TOML

A line that assigns a value to a bare key, and one that is a header, are read as one statement each.
-/
namespace ThemedPrompt
namespace Toml
open Text

/-- Keys that are written without quotes. -/
def Bare (key : Text) : Prop := key ≠ [] ∧ ∀ c ∈ key, isBareChar c = true

instance (key : Text) : Decidable (Bare key) :=
  decidable_of_iff (key ≠ [] ∧ key.all isBareChar = true) (by rw [Bare, List.all_eq_true])

/-- Values that are written on the line of their key. -/
def Inline : Document → Prop
  | .text _ => True
  | .bool _ => True
  | .int n => -Nat.pow 2 127 ≤ n ∧ n < Nat.pow 2 128
  | _ => False

theorem isWordChar_of_isBareChar {c : Char} (h : isBareChar c = true) : isWordChar c = true := by
  have hmarks : ".=,[]\x7b\x7d \t\r\n#\"'".toList.all (fun d => !isBareChar d) = true := by decide
  simp only [isWordChar, Bool.not_eq_true', List.contains_eq_mem, decide_eq_false_iff_not]
  intro hmem
  have hmark := List.all_eq_true.1 hmarks c hmem
  rw [h] at hmark
  cases hmark

theorem isWordChar_of_isDigit {c : Char} (h : c.isDigit = true) : isWordChar c = true :=
  isWordChar_of_isBareChar (by simp [isBareChar, Char.isAlphanum, h])

theorem token?_word {w rest : Text} (hne : w ≠ []) (hw : ∀ c ∈ w, isWordChar c = true)
    (hrest : ∀ c ∈ rest.head?, isWordChar c = false) :
    token? (w ++ rest) = some (some (.word w), rest) := by
  obtain ⟨c, cs, rfl⟩ := List.exists_cons_of_ne_nil hne
  obtain ⟨hc, hcs⟩ := List.forall_mem_cons.1 hw
  obtain ⟨htake, hdrop⟩ := span_append hcs hrest
  have hspace : isSpace c = false := by
    refine eq_false_of_ne_true fun h => ?_
    simp only [isSpace, Bool.or_eq_true, decide_eq_true_eq] at h
    rcases h with rfl | rfl <;> exact absurd hc (by decide)
  rw [List.cons_append]
  unfold token?
  split
  case h_16 heq =>
    cases heq
    rw [if_neg (by simp [hspace]), if_pos hc, htake, hdrop]
  case h_1 heq => cases heq
  all_goals
    next heq =>
      rw [(List.cons.inj heq).1] at hc
      exact absurd hc (by decide)

theorem sign_ofInt (n : Int) : sign (ofInt n) = (decide (n < 0), ofNat n.natAbs) := by
  cases n with
  | ofNat n =>
    have hmarks : ∀ c ∈ ofNat n, c ≠ '-' ∧ c ≠ '+' := by
      intro c hc
      have hdigit := (isNumeral_ofNat n).2 c hc
      constructor <;> rintro rfl <;> exact absurd hdigit (by decide)
    have hneg : decide (Int.ofNat n < 0) = false :=
      decide_eq_false (Int.not_lt.2 (Int.natCast_nonneg n))
    rw [hneg, ofInt]
    unfold sign
    split
    · next heq => exact absurd rfl (hmarks '-' (by rw [heq]; exact List.mem_cons_self)).1
    · next heq => exact absurd rfl (hmarks '+' (by rw [heq]; exact List.mem_cons_self)).2
    · rfl
  | negSucc n => simp [ofInt, sign, Int.negSucc_lt_zero]

theorem ungrouped_ofInt (n : Int) : ungrouped (ofInt n) = ofInt n := by
  rw [ungrouped, List.filter_eq_self]
  intro c hc
  have hchar := mem_ofInt c hc
  simp only [ne_eq, decide_not, Bool.not_eq_true', decide_eq_false_iff_not]
  rintro rfl
  exact absurd hchar (by decide)

theorem isWhole_ofInt (n : Int) : isWhole (ofInt n) = true := by
  obtain ⟨hne, hdigits⟩ := isNumeral_ofNat n.natAbs
  have hend : ∀ c ∈ ([] : Text).head?, c.isDigit = false := by rintro c ⟨⟩
  have hrest := (span_append hdigits hend).2
  rw [List.append_nil] at hrest
  have hzero : ofNat n.natAbs = ['0'] ∨ startsWith (· = '0') (ofNat n.natAbs) = false := by
    rcases Nat.eq_zero_or_pos n.natAbs with h | h
    · rw [h]
      exact .inl ofNat_zero
    · right
      have hfirst := head_ofNat h
      rw [startsWith]
      cases hhead : (ofNat n.natAbs).head? with
      | none => rfl
      | some c => simpa using hfirst c hhead
  rw [isWhole, sign_ofInt]
  dsimp only
  rw [hrest]
  rcases hzero with h | h
  · simp [h]
  · simp [h, hne]

theorem whole_ofInt {n : Int} (hn : -Nat.pow 2 127 ≤ n ∧ n < Nat.pow 2 128) :
    whole (ofInt n) = .int n := by
  have hsigned : signed (decide (n < 0)) n.natAbs = n := by
    unfold signed
    split
    · next h => have := of_decide_eq_true h; omega
    · next h => have := of_decide_eq_false (eq_false_of_ne_true h); omega
  rw [whole, ungrouped_ofInt, sign_ofInt]
  dsimp only
  rw [if_pos (by simpa using (isNumeral_ofNat n.natAbs).2), natValue_ofNat, hsigned, ofInteger, if_pos hn]

theorem value?_ofInt {n : Int} (hn : -Nat.pow 2 127 ≤ n ∧ n < Nat.pow 2 128) :
    value? (ofInt n) = some (.int n) := by
  -- Neither a constant nor the mark of a radix has only digits and signs.
  have hchars : ∀ c, ¬ (c = '-' ∨ c.isDigit = true) → c ∉ ofInt n :=
    fun c hc hmem => hc (mem_ofInt c hmem)
  have hinteger : integer? (ofInt n) = some (.int n) := by
    unfold integer?
    split
    · next heq => exact absurd (by simp [heq]) (hchars 'x' (by decide))
    · next heq => exact absurd (by simp [heq]) (hchars 'o' (by decide))
    · next heq => exact absurd (by simp [heq]) (hchars 'b' (by decide))
    · rw [if_pos (isWhole_ofInt n), whole_ofInt hn]
  rw [value?, if_neg, if_neg, hinteger]
  · exact fun h => hchars 'f' (by decide) (by simp [h])
  · exact fun h => hchars 't' (by decide) (by simp [h])

/-- Reads a text to its end in a given state. -/
def readFrom (p : Progress) (t : Text) : Option Progress :=
  (tokens? t).bind fun ts => (ts ++ [Token.newline]).foldlM Progress.step p

theorem readFrom_nil (p : Progress) : readFrom p [] = p.step .newline := by
  rw [readFrom, tokens?, if_pos rfl]
  simp

section
variable {p p' : Progress} {tok : Token} {t rest : Text}

theorem readFrom_token (htok : token? t = some (some tok, rest)) (hstep : p.step tok = some p') :
    readFrom p t = readFrom p' rest := by
  have hne : t ≠ [] := by
    rintro rfl
    cases htok
  rw [readFrom, readFrom, tokens?, if_neg hne]
  split
  · next tok' rest' htok' =>
    rw [htok] at htok'
    cases htok'
    rw [Option.bind_map]
    apply congrArg
    funext ts
    simp only [Function.comp_apply, List.cons_append, List.foldlM_cons, hstep]
    rfl
  · next hnone =>
    rw [htok] at hnone
    cases hnone
  · next hnone =>
    rw [htok] at hnone
    cases hnone

theorem readFrom_word (hne : t ≠ []) (ht : ∀ c ∈ t, isWordChar c = true)
    (hrest : ∀ c ∈ rest.head?, isWordChar c = false) (hstep : p.step (.word t) = some p') :
    readFrom p (t ++ rest) = readFrom p' rest :=
  readFrom_token (token?_word hne ht hrest) hstep

theorem readFrom_bare (hkey : Bare t) (hrest : ∀ c ∈ rest.head?, isWordChar c = false)
    (hstep : p.step (.word t) = some p') : readFrom p (t ++ rest) = readFrom p' rest :=
  readFrom_word hkey.1 (fun c hc => isWordChar_of_isBareChar (hkey.2 c hc)) hrest hstep

end

theorem keyPart?_bare {key : Text} (hkey : Bare key) : keyPart? (.word key) = some key := by
  rw [keyPart?, if_pos (List.all_eq_true.2 hkey.2)]

theorem token?_space {t : Text} (h : ∀ c ∈ t.head?, isSpace c = false) :
    token? (' ' :: t) = some (some (.space [' ']), t) := by
  have hread : token? (' ' :: t) =
      some (some (.space (' ' :: t.takeWhile isSpace)), t.dropWhile isSpace) := rfl
  rw [hread, takeWhile_of_head h, dropWhile_of_head h]

section
variable {p : Progress} {key path w : Text} {d : Document} {done : List Statement}

/-- A word is a value where its line ends. -/
theorem readFrom_valueWord (hne : w ≠ []) (hw : ∀ c ∈ w, isWordChar c = true)
    (hvalue : value? w = some d) (path : List Text) (done : List Statement) (rest : Text) :
    readFrom ⟨.value, [.line path], done⟩ (w ++ '\n' :: rest) =
      readFrom ⟨.line, [], .assign path d :: done⟩ rest := by
  have hend : Progress.step ⟨.word w, [.line path], done⟩ .newline =
      some ⟨.line, [], .assign path d :: done⟩ := by
    change Progress.endWord _ w .newline = _
    rw [Progress.endWord, hvalue]
    rfl
  rw [readFrom_word hne hw (by rintro c ⟨⟩; rfl) rfl, readFrom_token rfl hend]

/-- A value is read in front of the end of its line. -/
theorem readFrom_inline (hd : Inline d) {v : Text} (hv : inline? d = some v) (path : List Text)
    (done : List Statement) (rest : Text) :
    readFrom ⟨.value, [.line path], done⟩ (v ++ '\n' :: rest) =
      readFrom ⟨.line, [], .assign path d :: done⟩ rest := by
  cases d with
  | text t =>
    cases hv
    have hrest : ∀ c ∈ ('\n' :: rest).head?, c ≠ '"' ∧ c ≠ '\'' := by rintro c ⟨⟩; decide
    rcases token?_quoted t hrest with h | h
    · rw [readFrom_token h rfl, readFrom_token rfl rfl]
    · rw [readFrom_token h rfl, readFrom_token rfl rfl]
  | int n =>
    cases hv
    refine readFrom_valueWord (ofInt_ne_nil n) ?_ (value?_ofInt hd) path done rest
    intro c hc
    rcases mem_ofInt c hc with rfl | hdigit
    · decide
    · exact isWordChar_of_isDigit hdigit
  | bool b =>
    cases hv
    cases b with
    | true => exact readFrom_valueWord (by decide) (List.all_eq_true.1 (by decide)) rfl path done rest
    | false => exact readFrom_valueWord (by decide) (List.all_eq_true.1 (by decide)) rfl path done rest
  | _ => exact hd.elim

/-- No written value starts with a space. -/
theorem head_inline (hd : Inline d) {v : Text} (hv : inline? d = some v) (rest : Text) :
    ∀ c ∈ (v ++ rest).head?, isSpace c = false := by
  cases d with
  | text t =>
    cases hv
    unfold quoted
    dsimp only
    split <;> (rintro c ⟨⟩; rfl)
  | int n =>
    cases hv
    obtain ⟨c, t, hfront⟩ := List.exists_cons_of_ne_nil (ofInt_ne_nil n)
    have hc := mem_ofInt c (by rw [hfront]; exact List.mem_cons_self)
    rw [hfront]
    rintro d ⟨⟩
    refine eq_false_of_ne_true fun hspace => ?_
    simp only [isSpace, Bool.or_eq_true, decide_eq_true_eq] at hspace
    rcases hspace with rfl | rfl <;> exact absurd hc (by decide)
  | bool b =>
    cases hv
    cases b <;> (rintro c ⟨⟩; rfl)
  | _ => exact hd.elim

theorem readFrom_assignment (hkey : Bare key) (hd : Inline d) {line : Text}
    (hline : assignment? key d = some line) (done : List Statement) (rest : Text) :
    readFrom ⟨.line, [], done⟩ (line ++ rest) =
      readFrom ⟨.line, [], .assign [key] d :: done⟩ rest := by
  obtain ⟨v, hv, rfl⟩ := Option.map_eq_some_iff.1 hline
  have hstart : Progress.step ⟨.line, [], done⟩ (.word key) =
      some ⟨.keyRest .assignment [key], [], done⟩ := by
    change (keyPart? (.word key)).map _ = _
    rw [keyPart?_bare hkey]
    rfl
  have hwritten : key ++ " = ".toList ++ v ++ ['\n'] ++ rest =
      key ++ ' ' :: '=' :: ' ' :: (v ++ '\n' :: rest) := by simp
  rw [hwritten, readFrom_bare hkey (by rintro c ⟨⟩; rfl) hstart,
    readFrom_token (token?_space (by rintro c ⟨⟩; rfl)) rfl, readFrom_token rfl rfl,
    readFrom_token (token?_space (head_inline hd hv _)) rfl, readFrom_inline hd hv]
  rfl

theorem readFrom_header (hkey : Bare key) (done : List Statement) (rest : Text) :
    readFrom ⟨.line, [], done⟩ ("\n[".toList ++ key ++ "]\n".toList ++ rest) =
      readFrom ⟨.line, [], .table [key] :: done⟩ rest := by
  have hstart : Progress.step ⟨.header, [], done⟩ (.word key) =
      some ⟨.keyRest .table [key], [], done⟩ := by
    change (keyPart? (.word key)).map _ = _
    rw [keyPart?_bare hkey]
    rfl
  have hwritten : "\n[".toList ++ key ++ "]\n".toList ++ rest =
      '\n' :: '[' :: (key ++ ']' :: '\n' :: rest) := by simp
  rw [hwritten, readFrom_token rfl rfl, readFrom_token rfl rfl,
    readFrom_bare hkey (by rintro c ⟨⟩; rfl) hstart, readFrom_token rfl rfl, readFrom_token rfl rfl]
  rfl

end

end Toml
end ThemedPrompt
