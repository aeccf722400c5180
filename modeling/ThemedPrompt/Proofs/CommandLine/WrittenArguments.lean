import ThemedPrompt.CommandLine.Arguments
import ThemedPrompt.Proofs.Config.WrittenDocuments
import ThemedPrompt.Proofs.Text.Cutting
import ThemedPrompt.Proofs.Text.Numeral

/-! # Written arguments

A rendering command is read from the arguments that it is written as, in whatever order its options
stand.
-/
namespace ThemedPrompt

/-- A path that can stand in an argument. -/
def Pathname.Spelled (p : Pathname) : Prop := ∃ t, t ≠ [] ∧ p.text? = some t

theorem Pathname.spelled_ofText {t : Text} (ht : t ≠ []) : (ofText t).Spelled :=
  ⟨t, ht, Utf8.decode?_encode t⟩

namespace CommandLine

/-- An option after two dashes, with its value after an equals sign. -/
def Key.argument (key : Key) (value : Text) : Text :=
  '-' :: '-' :: (key.long ++ if key.kind = .flag then [] else '=' :: value)

/-- The value that an option is given. That of a flag is empty. -/
def RenderOptions.value? (o : RenderOptions) : Key → Option Text
  | .theme => o.theme.bind Pathname.text?
  | .fromEnvironment => if o.fromEnvironment then some [] else none
  | .user => o.user
  | .host => o.host
  | .shell => o.shell
  | .workingDirectory => o.workingDirectory
  | .home => o.home
  | .code => o.code.map fun n => Text.ofInt n.toInt
  | .root => if o.root then some [] else none
  | .parts => if o.parts then some [] else none
  | _ => none

/-- How a rendering command is written. Every option that is given has its place in the order. -/
structure Spelling (config? : Option Pathname) (o : RenderOptions) where
  order : List Key
  once : order.Nodup
  complete : ∀ key, o.value? key ≠ none → key ∈ order
  config : ∀ p ∈ config?, p.Spelled
  theme : ∀ p ∈ o.theme, p.Spelled

namespace Spelling
variable {config? : Option Pathname} {o : RenderOptions}

/-- The configuration stands in front of the command. -/
def before (_ : Spelling config? o) : Given :=
  (config?.bind Pathname.text?).toList.map fun t => (.config, t)

def options (w : Spelling config? o) : Given :=
  w.order.filterMap fun key => (o.value? key).map fun value => (key, value)

def arguments (w : Spelling config? o) : List Text :=
  w.before.map (fun option => option.1.argument option.2) ++
    "render".toList :: w.options.map fun option => option.1.argument option.2

end Spelling

/-! ## One option -/

theorem Key.long_ne_nil (key : Key) : key.long ≠ [] := by
  cases key <;> decide

theorem Key.equals_notMem_long (key : Key) : '=' ∉ key.long := by
  cases key <;> decide

/-- Options of a level are told apart by their names. -/
theorem Level.long?_long {level : Level} {key : Key} (h : key ∈ level.keys) :
    level.long? key.long = some key := by
  have hkeys : ∀ key ∈ level.keys, level.long? key.long = some key := by
    cases level <;> decide
  exact hkeys key h

/-- A level knows an option, which does not ask about the program, and the option accepts a value. -/
structure Level.Takes (level : Level) (key : Key) (value : Text) : Prop where
  known : key ∈ level.keys
  ordinary : key ≠ .help ∧ key ≠ .version
  accepts : key.kind.accepts value = true

namespace Progress

theorem long_argument {p : Progress} {key : Key} {value : Text} (h : p.level.Takes key value) :
    p.long (key.long ++ if key.kind = .flag then [] else '=' :: value) = p.give key value := by
  have hname : ∀ c ∈ key.long, (decide (c ≠ '=')) = true := by
    intro c hc
    refine decide_eq_true ?_
    rintro rfl
    exact key.equals_notMem_long hc
  have hmark : ∀ c ∈ (if key.kind = .flag then [] else '=' :: value).head?,
      decide (c ≠ '=') = false := by
    split <;> simp
  obtain ⟨htake, hdrop⟩ := Text.span_append hname hmark
  rw [long, htake, hdrop, Level.long?_long h.known]
  by_cases hflag : key.kind = .flag
  · have hvalue : value = [] := by simpa [hflag, Key.Kind.accepts] using h.accepts
    simp [hflag, hvalue]
  · simp [hflag]

/-- The progress of reading options at a level. -/
def reading (level : Level) (before given : Given) : Progress :=
  { level := level, before := before, given := given }

theorem step_long {level : Level} (hlevel : level ≠ .help) {before given : Given} {name : Text}
    (hname : name ≠ []) :
    (reading level before given).step ('-' :: '-' :: name) =
      (reading level before given).long name := by
  obtain ⟨c, cs, rfl⟩ := List.exists_cons_of_ne_nil hname
  simp [step, reading, hlevel]

theorem give_new {level : Level} {before given : Given} {key : Key} {value : Text}
    (h : level.Takes key value) (hnew : given.lookup key = none) :
    (reading level before given).give key value =
      .ok (reading level before ((key, value) :: given)) := by
  have hgiven : (reading level before given).given = given := rfl
  rw [give.eq_def]
  split
  · exact absurd rfl h.ordinary.1
  · exact absurd rfl h.ordinary.2
  · rw [hgiven, hnew, h.accepts, if_pos ⟨rfl, rfl⟩]
    rfl

theorem step_argument {level : Level} {before given : Given} {key : Key} {value : Text}
    (h : level.Takes key value) (hnew : given.lookup key = none) :
    (reading level before given).step (key.argument value) =
      .ok (reading level before ((key, value) :: given)) := by
  have hlevel : level ≠ .help := by
    rintro rfl
    cases h.known
  rw [Key.argument, step_long hlevel (by simp [key.long_ne_nil]), long_argument h, give_new h hnew]

/-- Options that are all different are read one after another. -/
theorem foldlM_arguments {level : Level} {before options : Given}
    (htakes : ∀ option ∈ options, level.Takes option.1 option.2)
    (honce : (options.map Prod.fst).Nodup) (given : Given)
    (hnew : ∀ key ∈ options.map Prod.fst, given.lookup key = none) :
    (options.map fun option => option.1.argument option.2).foldlM step
      (reading level before given) = .ok (reading level before (options.reverse ++ given)) := by
  induction options generalizing given with
  | nil => rfl
  | cons first options ih =>
    obtain ⟨key, value⟩ := first
    have hfirst : level.Takes key value := htakes _ List.mem_cons_self
    rw [List.map_cons, List.nodup_cons] at honce
    have hrest : ∀ other ∈ options.map Prod.fst, ((key, value) :: given).lookup other = none := by
      intro other hother
      have hne : (other == key) = false := by
        rw [beq_eq_false_iff_ne]
        rintro rfl
        exact honce.1 hother
      rw [List.lookup_cons, hne]
      exact hnew other (List.mem_cons_of_mem _ hother)
    rw [List.map_cons, List.foldlM_cons,
      step_argument hfirst (hnew key List.mem_cons_self), List.reverse_cons, List.append_assoc,
      List.singleton_append]
    exact ih (fun option hoption => htakes option (List.mem_cons_of_mem _ hoption)) honce.2 _ hrest

end Progress

/-! ## What the options say -/

theorem integer?_ofInt (n : Int) : integer? (Text.ofInt n) = some n := by
  have hvalue (n : Nat) : (if Text.ofNat n ≠ [] ∧ (Text.ofNat n).all Char.isDigit then
      some (Text.natValue (Text.ofNat n)) else none) = some n := by
    obtain ⟨hne, hdigits⟩ := Text.isNumeral_ofNat n
    rw [if_pos ⟨hne, List.all_eq_true.2 hdigits⟩, Text.natValue_ofNat]
  cases n with
  | negSucc n => exact congrArg (Option.map fun n : Nat => -(n : Int)) (hvalue (n + 1))
  | ofNat n =>
    have hsign (sign : Char) (hsign : sign.isDigit = false) (digits : Text) :
        Text.ofNat n ≠ sign :: digits := by
      intro heq
      have hdigit := (Text.isNumeral_ofNat n).2 sign (by simp [heq])
      rw [hsign] at hdigit
      cases hdigit
    rw [Text.ofInt, integer?.eq_def]
    split
    next digits heq => exact absurd heq (hsign '-' rfl digits)
    next digits heq => exact absurd heq (hsign '+' rfl digits)
    next => exact congrArg (Option.map Int.ofNat) (hvalue n)

theorem code?_ofInt (n : Int32) : code? (Text.ofInt n.toInt) = some n := by
  rw [code?, integer?_ofInt, Option.bind_some, Document.int32?_toInt]

namespace RenderOptions
variable {o : RenderOptions} {key : Key} {value : Text}

/-- A value that is given is taken. -/
theorem takes_of_value? (htheme : ∀ p ∈ o.theme, p.Spelled) (h : o.value? key = some value) :
    Level.Takes .render key value where
  known := by
    cases key with
    | config | debug | help | version | html | strip => cases h
    | _ => decide
  ordinary := by
    cases key with
    | help | version => cases h
    | _ => decide
  accepts := by
    cases key with
    | config | debug | help | version | html | strip => cases h
    | user | host | shell | workingDirectory | home => rfl
    | fromEnvironment | root | parts =>
      rw [value?] at h
      split at h
      · cases h
        rfl
      · cases h
    | theme =>
      obtain ⟨p, hp, hvalue⟩ := Option.bind_eq_some_iff.1 h
      obtain ⟨t, hne, ht⟩ := htheme p hp
      rw [ht] at hvalue
      cases hvalue
      exact decide_eq_true hne
    | code =>
      obtain ⟨n, -, rfl⟩ := Option.map_eq_some_iff.1 h
      rw [Key.kind, Key.Kind.accepts, code?_ofInt]
      rfl

/-- The options are put together again from their values. -/
theorem renderOptions_of_lookup (htheme : ∀ p ∈ o.theme, p.Spelled) {given : Given}
    (h : ∀ key, given.lookup key = o.value? key) : Progress.renderOptions given = o := by
  have hpath : (o.theme.bind Pathname.text?).map Pathname.ofText = o.theme := by
    cases hp : o.theme with
    | none => rfl
    | some p =>
      obtain ⟨t, -, ht⟩ := htheme p hp
      rw [Option.bind_some, ht, Option.map_some, Pathname.ofText_of_text? ht]
  have hcode : (o.code.map fun n => Text.ofInt n.toInt).bind code? = o.code := by
    cases o.code with
    | none => rfl
    | some n => rw [Option.map_some, Option.bind_some, code?_ofInt]
  have hflag (b : Bool) : (if b then some ([] : Text) else none).isSome = b := by
    cases b <;> rfl
  simp only [Progress.renderOptions, h, value?, hpath, hcode, hflag]

end RenderOptions

namespace Spelling
variable {config? : Option Pathname} {o : RenderOptions}

/-- The options in the order in which the program knows them. -/
def usual (config : ∀ p ∈ config?, p.Spelled) (theme : ∀ p ∈ o.theme, p.Spelled) :
    Spelling config? o where
  order := Level.keys .render
  once := by decide
  complete := by
    intro key h
    obtain ⟨value, hvalue⟩ := Option.ne_none_iff_exists'.1 h
    exact (RenderOptions.takes_of_value? theme hvalue).known
  config := config
  theme := theme

variable (w : Spelling config? o)

theorem mem_options {key : Key} {value : Text} :
    (key, value) ∈ w.options ↔ o.value? key = some value := by
  rw [options, List.mem_filterMap]
  constructor
  · rintro ⟨other, -, h⟩
    obtain ⟨v, hv, heq⟩ := Option.map_eq_some_iff.1 h
    cases heq
    exact hv
  · intro h
    exact ⟨key, w.complete key (by simp [h]), by rw [h]; rfl⟩

theorem map_fst_options :
    w.options.map Prod.fst = w.order.filter fun key => (o.value? key).isSome := by
  have hvalue (key : Key) : ((o.value? key).map fun value => (key, value)).map Prod.fst =
      if (o.value? key).isSome then some key else none := by
    cases o.value? key <;> rfl
  rw [options, List.map_filterMap, ← List.filterMap_eq_filter]
  simp only [hvalue]
  rfl

theorem lookup_options (key : Key) : w.options.reverse.lookup key = o.value? key := by
  cases hlookup : w.options.reverse.lookup key with
  | none =>
    cases hvalue : o.value? key with
    | none => rfl
    | some value =>
      have hmem := w.mem_options.2 hvalue
      have hne := List.lookup_eq_none_iff.1 hlookup _ (List.mem_reverse.2 hmem)
      simp at hne
  | some value =>
    obtain ⟨front, back, hsplit, -⟩ := List.lookup_eq_some_iff.1 hlookup
    have hmem : (key, value) ∈ w.options := by
      rw [← List.mem_reverse, hsplit]
      simp
    rw [w.mem_options.1 hmem]

/-- What stands in front of the command is read as a configuration. -/
theorem lookup_before : (w.before.lookup .config).map Pathname.ofText = config? := by
  cases config? with
  | none => rfl
  | some p =>
    obtain ⟨t, -, ht⟩ := w.config p rfl
    rw [before, Option.bind_some, ht]
    exact congrArg some (Pathname.ofText_of_text? ht)

theorem foldlM_before :
    (w.before.map fun option => option.1.argument option.2).foldlM Progress.step {} =
      .ok (Progress.reading .program [] w.before) := by
  cases config? with
  | none => rfl
  | some p =>
    obtain ⟨t, hne, ht⟩ := w.config p rfl
    have hbefore : w.before = [(.config, t)] := by
      rw [before, Option.bind_some, ht]
      rfl
    rw [hbefore]
    refine Progress.foldlM_arguments ?_ (by simp) [] (by simp)
    intro option hoption
    rw [List.mem_singleton.1 hoption]
    have hknown : Key.config ∈ Level.keys .program := by decide
    exact ⟨hknown, ⟨Key.noConfusion, Key.noConfusion⟩, decide_eq_true hne⟩

theorem foldlM_options :
    (w.options.map fun option => option.1.argument option.2).foldlM Progress.step
      (Progress.reading .render w.before []) =
      .ok (Progress.reading .render w.before w.options.reverse) := by
  have honce : (w.options.map Prod.fst).Nodup := by
    rw [w.map_fst_options]
    exact w.once.filter _
  rw [Progress.foldlM_arguments _ honce [] (by simp), List.append_nil]
  intro option hoption
  exact RenderOptions.takes_of_value? w.theme (w.mem_options.1 hoption)

theorem foldlM_command :
    ("render".toList :: w.options.map fun option => option.1.argument option.2).foldlM Progress.step
      (Progress.reading .program [] w.before) =
      .ok (Progress.reading .render w.before w.options.reverse) := by
  have hcommand : (Progress.reading .program [] w.before).step "render".toList =
      .ok (Progress.reading .render w.before []) := rfl
  rw [List.foldlM_cons, hcommand]
  exact w.foldlM_options

/-- What is written is read, the configuration and every option alike. -/
theorem parse_arguments : parse w.arguments = .ok ⟨config?, .render o⟩ := by
  have hread : w.arguments.foldlM Progress.step {} =
      .ok (Progress.reading .render w.before w.options.reverse) := by
    rw [arguments, List.foldlM_append, w.foldlM_before]
    exact w.foldlM_command
  have hoptions : Progress.renderOptions w.options.reverse = o :=
    RenderOptions.renderOptions_of_lookup w.theme w.lookup_options
  have hconfig : ((w.options.reverse ++ w.before).lookup .config).map Pathname.ofText = config? := by
    rw [List.lookup_append, w.lookup_options]
    exact w.lookup_before
  have hfinish : (Progress.reading .render w.before w.options.reverse).finish =
      .ok ⟨((w.options.reverse ++ w.before).lookup .config).map Pathname.ofText,
        .render (Progress.renderOptions w.options.reverse)⟩ := rfl
  rw [parse, hread]
  exact hfinish.trans (by rw [hoptions, hconfig])

end Spelling
end CommandLine
end ThemedPrompt
