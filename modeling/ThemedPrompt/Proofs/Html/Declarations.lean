import ThemedPrompt.Html
import ThemedPrompt.Proofs.Sgr.Canonical
import ThemedPrompt.Proofs.Text.Cutting

/-! # Styles as declarations

The style of a span is a row of declarations, each ended by a semicolon. Canonical colours hold no
character that ends a declaration or the style, so the style can be read back from them.
-/
namespace ThemedPrompt

theorem Text.hexDigit_mem {n : Nat} (hn : n < 16) : hexDigit n ∈ "0123456789abcdef".toList := by
  revert n
  decide

theorem Rgb.mem_toHex {c : Rgb} {d : Char} (hd : d ∈ c.toHex) :
    d = '#' ∨ d ∈ "0123456789abcdef".toList := by
  have hbyte (b : UInt8) (hd : d ∈ Text.hexByte b) : d ∈ "0123456789abcdef".toList := by
    have hlt := b.toNat_lt
    rcases List.mem_cons.1 hd with rfl | hd
    · exact Text.hexDigit_mem (by omega)
    · rw [List.mem_singleton.1 hd]
      exact Text.hexDigit_mem (by omega)
  rcases List.mem_cons.1 hd with rfl | hd
  · exact .inl rfl
  · right
    simp only [List.mem_append] at hd
    rcases hd with (hd | hd) | hd <;> exact hbyte _ hd

namespace Html
open Sgr

/-- A written colour neither ends its declaration nor the whole style. -/
theorem notMem_of_writes {color : Text} (h : Rgb.Writes color) : ';' ∉ color ∧ '"' ∉ color := by
  obtain ⟨c, rfl⟩ := h
  have hother {d : Char} (hd : d ≠ '#' ∧ d ∉ "0123456789abcdef".toList) : d ∉ c.toHex := by
    intro hmem
    rcases Rgb.mem_toHex hmem with h | h
    · exact hd.1 h
    · exact hd.2 h
  exact ⟨hother (by decide), hother (by decide)⟩

def foregroundName : Text := "color: ".toList

def backgroundName : Text := "background-color: ".toList

def boldDeclaration : Text := "font-weight: bold".toList

def italicDeclaration : Text := "font-style: italic".toList

def underlineDeclaration : Text := "text-decoration: underline".toList

/-- The declarations of a style. -/
def declarations (s : Style) : List Text :=
  (s.foreground.map (foregroundName ++ ·)).toList ++ (s.background.map (backgroundName ++ ·)).toList
    ++ (if s.bold then [boldDeclaration] else []) ++ (if s.italic then [italicDeclaration] else [])
    ++ (if s.underline then [underlineDeclaration] else [])

/-- The style that declarations between semicolons make. -/
def styleOf (css : Text) : Style :=
  let ds := Text.splitBy (· = ';') css
  { foreground := ds.findSome? (Text.after? foregroundName)
    background := ds.findSome? (Text.after? backgroundName)
    bold := ds.contains boldDeclaration
    italic := ds.contains italicDeclaration
    underline := ds.contains underlineDeclaration }

theorem css_eq (s : Style) : css s = (declarations s).flatMap (· ++ [';']) := by
  have hcolor (name : Text) (color : Option Text) : color.elim [] (fun c => name ++ c ++ [';']) =
      (color.map (name ++ ·)).toList.flatMap (· ++ [';']) := by
    cases color <;> simp
  have hflag (on : Bool) (d : Text) : (if on then d ++ [';'] else []) =
      (if on then [d] else []).flatMap (· ++ [';']) := by
    cases on <;> simp
  have hcss : css s = s.foreground.elim [] (fun c => foregroundName ++ c ++ [';'])
      ++ s.background.elim [] (fun c => backgroundName ++ c ++ [';'])
      ++ (if s.bold then boldDeclaration ++ [';'] else [])
      ++ (if s.italic then italicDeclaration ++ [';'] else [])
      ++ (if s.underline then underlineDeclaration ++ [';'] else []) := rfl
  rw [hcss, hcolor, hcolor, hflag, hflag, hflag, declarations]
  simp only [List.flatMap_append]

/-- No declaration of canonical colours holds a semicolon or a quote. -/
theorem notMem_of_mem_declarations {s : Style} (hs : s.Canonical) {d : Text}
    (hd : d ∈ declarations s) : ';' ∉ d ∧ '"' ∉ d := by
  have hcolor {name c : Text} (hname : ';' ∉ name ∧ '"' ∉ name) (hc : Rgb.Writes c) :
      ';' ∉ name ++ c ∧ '"' ∉ name ++ c := by
    have hwritten := notMem_of_writes hc
    simp [hname, hwritten]
  have hflag {on : Bool} {word : Text} (hword : ';' ∉ word ∧ '"' ∉ word)
      (hd : d ∈ if on then [word] else []) : ';' ∉ d ∧ '"' ∉ d := by
    cases on with
    | true => rwa [List.mem_singleton.1 hd]
    | false => cases hd
  simp only [declarations, List.mem_append] at hd
  rcases hd with (((hd | hd) | hd) | hd) | hd
  · obtain ⟨c, hc, rfl⟩ := Option.map_eq_some_iff.1 (Option.mem_toList.1 hd)
    exact hcolor (by decide) (hs.foreground c hc)
  · obtain ⟨c, hc, rfl⟩ := Option.map_eq_some_iff.1 (Option.mem_toList.1 hd)
    exact hcolor (by decide) (hs.background c hc)
  · exact hflag (by decide) hd
  · exact hflag (by decide) hd
  · exact hflag (by decide) hd

theorem splitBy_css {s : Style} (hs : s.Canonical) :
    Text.splitBy (· = ';') (css s) = declarations s ++ [[]] := by
  have hsplit (ds : List Text) : (∀ d ∈ ds, ';' ∉ d) →
      Text.splitBy (· = ';') (ds.flatMap (· ++ [';'])) = ds ++ [[]] := by
    induction ds with
    | nil => exact fun _ => rfl
    | cons d ds ih =>
      intro hds
      obtain ⟨hd, hds⟩ := List.forall_mem_cons.1 hds
      have hinside : ∀ c ∈ d, decide (c = ';') = false := by
        intro c hc
        apply decide_eq_false
        rintro rfl
        exact hd hc
      rw [List.flatMap_cons, List.append_assoc, List.singleton_append,
        Text.splitBy_append_cons hinside ';' rfl, ih hds, List.cons_append]
  rw [css_eq]
  exact hsplit _ fun d hd => (notMem_of_mem_declarations hs hd).1

theorem notMem_quote_css {s : Style} (hs : s.Canonical) : '"' ∉ css s := by
  rw [css_eq]
  intro hmem
  obtain ⟨d, hd, hmem⟩ := List.mem_flatMap.1 hmem
  rcases List.mem_append.1 hmem with hmem | hmem
  · exact (notMem_of_mem_declarations hs hd).2 hmem
  · exact absurd (List.mem_singleton.1 hmem) (by decide)

theorem findSome?_declarations (s : Style) {name : Text}
    (hname : ∀ d ∈ [boldDeclaration, italicDeclaration, underlineDeclaration, []],
      Text.after? name d = none) :
    (declarations s ++ [[]]).findSome? (Text.after? name) =
      (s.foreground.bind fun c => Text.after? name (foregroundName ++ c)).or
        (s.background.bind fun c => Text.after? name (backgroundName ++ c)) := by
  have hcolor (prior : Text) (color : Option Text) :
      (color.map (prior ++ ·)).toList.findSome? (Text.after? name) =
        color.bind fun c => Text.after? name (prior ++ c) := by
    cases color <;> simp
  have hflag (on : Bool) {d : Text} (hd : Text.after? name d = none) :
      (if on then [d] else []).findSome? (Text.after? name) = none := by
    cases on <;> simp [hd]
  have hbold := hflag s.bold (hname boldDeclaration (by simp))
  have hitalic := hflag s.italic (hname italicDeclaration (by simp))
  have hunderline := hflag s.underline (hname underlineDeclaration (by simp))
  have hempty : [[]].findSome? (Text.after? name) = none := by
    simpa using hname [] (by simp)
  simp only [declarations, List.findSome?_append, hcolor, hbold, hitalic, hunderline, hempty,
    Option.or_none]

theorem contains_declarations (s : Style) {d : Text}
    (hd : d ∈ [boldDeclaration, italicDeclaration, underlineDeclaration]) :
    (declarations s ++ [[]]).contains d =
      (s.bold && d == boldDeclaration || s.italic && d == italicDeclaration ||
        s.underline && d == underlineDeclaration) := by
  have hnames : Text.after? foregroundName d = none ∧ Text.after? backgroundName d = none := by
    revert d
    decide
  have hcolor {name : Text} (hname : Text.after? name d = none) (color : Option Text) :
      (color.map (name ++ ·)).toList.contains d = false := by
    cases color with
    | none => rfl
    | some c =>
      have hne : d ≠ name ++ c := by
        rintro rfl
        rw [Text.after?_append] at hname
        cases hname
      simpa using hne
  have hflag (on : Bool) (word : Text) :
      (if on then [word] else []).contains d = (on && d == word) := by
    cases on with
    | true => exact Bool.or_false (d == word)
    | false => rfl
  have hempty : ∀ d ∈ [boldDeclaration, italicDeclaration, underlineDeclaration],
      [[]].contains d = false := by
    decide
  simp only [declarations, List.contains_append, hcolor hnames.1, hcolor hnames.2, hflag, hempty d hd,
    Bool.false_or, Bool.or_false]

/-- A style with canonical colours is read back from what is written for it. -/
theorem styleOf_css {s : Style} (hs : s.Canonical) : styleOf (css s) = s := by
  have hforeground : (declarations s ++ [[]]).findSome? (Text.after? foregroundName) =
      s.foreground := by
    have hother (c : Text) : Text.after? foregroundName (backgroundName ++ c) = none := rfl
    rw [findSome?_declarations s (by decide)]
    simp [Text.after?_append, hother]
  have hbackground : (declarations s ++ [[]]).findSome? (Text.after? backgroundName) =
      s.background := by
    have hother (c : Text) : Text.after? backgroundName (foregroundName ++ c) = none := rfl
    rw [findSome?_declarations s (by decide)]
    simp [Text.after?_append, hother]
  have hdistinct : (boldDeclaration == italicDeclaration) = false ∧
      (boldDeclaration == underlineDeclaration) = false ∧
      (italicDeclaration == boldDeclaration) = false ∧
      (italicDeclaration == underlineDeclaration) = false ∧
      (underlineDeclaration == boldDeclaration) = false ∧
      (underlineDeclaration == italicDeclaration) = false := by
    decide
  have hbold := contains_declarations s (d := boldDeclaration) (by simp)
  have hitalic := contains_declarations s (d := italicDeclaration) (by simp)
  have hunderline := contains_declarations s (d := underlineDeclaration) (by simp)
  simp only [hdistinct, beq_self_eq_true, Bool.and_true, Bool.and_false, Bool.or_false,
    Bool.false_or] at hbold hitalic hunderline
  rw [styleOf, splitBy_css hs]
  simp only [hforeground, hbackground, hbold, hitalic, hunderline]

/-- A style without colours or attributes is the plain one. -/
theorem css_eq_nil_iff (s : Style) : css s = [] ↔ s = Style.plain := by
  rw [css_eq]
  obtain ⟨foreground, background, bold, italic, underline⟩ := s
  cases foreground <;> cases background <;> cases bold <;> cases italic <;> cases underline <;>
    simp [declarations, Style.plain]

end Html
end ThemedPrompt
