import ThemedPrompt.Template.Render

/-! # Paths that a template names

A template puts in the texts of some paths and tests others. Two records in which the former have
the same texts and the latter hold alike fill it alike, whatever else they hold.
-/
namespace ThemedPrompt
namespace Template

mutual

/-- The paths whose texts are put in, in either branch of a conditional. -/
def Node.substituted : Node → List Path
  | .literal _ => []
  | .field p => [p]
  | .conditional _ yes no => substitutedAll yes ++ substitutedAll no

def substitutedAll : List Node → List Path
  | [] => []
  | node :: nodes => node.substituted ++ substitutedAll nodes

end

mutual

/-- The paths that decide a conditional, those of conditionals in its branches too. -/
def Node.tested : Node → List Path
  | .literal _ => []
  | .field _ => []
  | .conditional p yes no => p :: (testedAll yes ++ testedAll no)

def testedAll : List Node → List Path
  | [] => []
  | node :: nodes => node.tested ++ testedAll nodes

end

def namedAll (nodes : List Node) : List Path := substitutedAll nodes ++ testedAll nodes

/-- Two records that a tree cannot tell apart. -/
structure Alike (nodes : List Node) (data data' : Record) : Prop where
  text : ∀ p ∈ substitutedAll nodes, p.textIn data = p.textIn data'
  holds : ∀ p ∈ testedAll nodes, p.holdsIn data = p.holdsIn data'

namespace Alike
variable {node : Node} {p : Path} {nodes yes no : List Node} {data data' : Record}

theorem tail (h : Alike (node :: nodes) data data') : Alike nodes data data' where
  text q hq := h.text q (List.mem_append_right _ hq)
  holds q hq := h.holds q (List.mem_append_right _ hq)

theorem yesBranch (h : Alike (.conditional p yes no :: nodes) data data') : Alike yes data data' where
  text q hq := h.text q (by simp [substitutedAll, Node.substituted, hq])
  holds q hq := h.holds q (by simp [testedAll, Node.tested, hq])

theorem noBranch (h : Alike (.conditional p yes no :: nodes) data data') : Alike no data data' where
  text q hq := h.text q (by simp [substitutedAll, Node.substituted, hq])
  holds q hq := h.holds q (by simp [testedAll, Node.tested, hq])

/-- Records whose named paths lead to the same values, or both to none, are alike. -/
theorem of_lookup (h : ∀ p ∈ namedAll nodes, p.lookup data = p.lookup data') :
    Alike nodes data data' where
  text p hp := by rw [Path.textIn, Path.textIn, h p (List.mem_append_left _ hp)]
  holds p hp := by rw [Path.holdsIn, Path.holdsIn, h p (List.mem_append_right _ hp)]

end Alike

mutual

theorem Node.fill_eq_of_alike {data data' : Record} (node : Node) {nodes : List Node}
    (h : Alike (node :: nodes) data data') : node.fill data = node.fill data' := by
  cases node with
  | literal t => rfl
  | field p => exact h.text p List.mem_cons_self
  | conditional p yes no =>
    have hp : p.holdsIn data = p.holdsIn data' := h.holds p List.mem_cons_self
    rw [Node.fill, Node.fill, hp, fillAll_eq_of_alike yes h.yesBranch, fillAll_eq_of_alike no h.noBranch]

theorem fillAll_eq_of_alike {data data' : Record} (nodes : List Node)
    (h : Alike nodes data data') : fillAll data nodes = fillAll data' nodes := by
  cases nodes with
  | nil => rfl
  | cons node nodes =>
    rw [fillAll, fillAll, Node.fill_eq_of_alike node h, fillAll_eq_of_alike nodes h.tail]

end

theorem render_eq_of_alike {t : Text} {data data' : Record} (h : Alike (parse t) data data') :
    render t data = render t data' := by
  rw [render, render, fillAll_eq_of_alike (parse t) h]

section
variable (front back : Record) {name : Text} (v : Value)

theorem lookup_insert_of_ne {other : Text} (h : other ≠ name) :
    (front ++ (name, v) :: back).lookup other = (front ++ back).lookup other := by
  have hother : (other == name) = false := beq_eq_false_iff_ne.2 h
  rw [List.lookup_append, List.lookup_append, List.lookup_cons, hother]

theorem lookup_insert_self (h : (front ++ back).lookup name = none) :
    (front ++ (name, v) :: back).lookup name = some v := by
  rw [List.lookup_append, Option.or_eq_none_iff] at h
  rw [List.lookup_append, h.1, List.lookup_cons_self, Option.none_or]

theorem Path.lookup_insert_of_ne {p : Path} (h : p.name ≠ name) :
    p.lookup (front ++ (name, v) :: back) = p.lookup (front ++ back) := by
  rw [Path.lookup, Path.lookup, Template.lookup_insert_of_ne front back v h]

/-- A field that no path starts with may be added. -/
theorem alike_insert {nodes : List Node} (h : ∀ p ∈ namedAll nodes, p.name ≠ name) :
    Alike nodes (front ++ (name, v) :: back) (front ++ back) :=
  .of_lookup fun p hp => Path.lookup_insert_of_ne front back v (h p hp)

variable {v}

/-- A missing field may be put in with nothing in it: its members stay missing. -/
theorem alike_insert_hollow (hmissing : (front ++ back).lookup name = none)
    (hv : v = .text [] ∨ v = .record []) (nodes : List Node) :
    Alike nodes (front ++ (name, v) :: back) (front ++ back) := by
  have hsame (p : Path) : p.textIn (front ++ (name, v) :: back) = p.textIn (front ++ back) ∧
      p.holdsIn (front ++ (name, v) :: back) = p.holdsIn (front ++ back) := by
    obtain ⟨other, member⟩ := p
    by_cases hp : other = name
    · obtain rfl := hp
      have hself := lookup_insert_self front back v hmissing
      cases member <;> rcases hv with rfl | rfl <;>
        simp [Path.textIn, Path.holdsIn, Path.lookup, hself, hmissing, Value.toText, Value.truthy]
    · have hlookup : Path.lookup ⟨other, member⟩ (front ++ (name, v) :: back) =
          Path.lookup ⟨other, member⟩ (front ++ back) := Path.lookup_insert_of_ne front back v hp
      simp [Path.textIn, Path.holdsIn, hlookup]
  exact ⟨fun p _ => (hsame p).1, fun p _ => (hsame p).2⟩

variable (v) (before after : Record) {m : Text}

/-- A path sees a member that is added to a record if it leads to the member or to the record. -/
theorem Path.lookup_insert_member {p : Path} (hmember : p ≠ ⟨name, some m⟩)
    (hrecord : p ≠ ⟨name, none⟩) :
    p.lookup (front ++ (name, .record (before ++ (m, v) :: after)) :: back) =
      p.lookup (front ++ (name, .record (before ++ after)) :: back) := by
  obtain ⟨other, member⟩ := p
  by_cases hp : other = name
  · obtain rfl := hp
    cases member with
    | none => exact absurd rfl hrecord
    | some k =>
      have hk : k ≠ m := by
        rintro rfl
        exact hmember rfl
      have hinner := Template.lookup_insert_of_ne before after v hk
      simp only [Path.lookup, List.lookup_append, List.lookup_cons_self]
      cases front.lookup other with
      | none => exact hinner
      | some w => rfl
  · rw [Path.lookup_insert_of_ne front back _ hp, Path.lookup_insert_of_ne front back _ hp]

theorem alike_insert_member {nodes : List Node} (hmember : ⟨name, some m⟩ ∉ namedAll nodes)
    (hrecord : ⟨name, none⟩ ∈ testedAll nodes → before ++ after ≠ []) :
    Alike nodes (front ++ (name, .record (before ++ (m, v) :: after)) :: back)
      (front ++ (name, .record (before ++ after)) :: back) := by
  have hne {p : Path} (hp : p ∈ namedAll nodes) : p ≠ ⟨name, some m⟩ := by
    rintro rfl
    exact hmember hp
  constructor
  · intro p hp
    by_cases hself : p = ⟨name, none⟩
    · subst hself
      simp only [Path.textIn, Path.lookup, List.lookup_append, List.lookup_cons_self]
      cases front.lookup name with
      | none => rfl
      | some w => rfl
    · rw [Path.textIn, Path.textIn, Path.lookup_insert_member front back v before after
        (hne (List.mem_append_left _ hp)) hself]
  · intro p hp
    by_cases hself : p = ⟨name, none⟩
    · subst hself
      have hfields : (before ++ after).isEmpty = false := by simpa using hrecord hp
      simp only [Path.holdsIn, Path.lookup, List.lookup_append, List.lookup_cons_self]
      cases front.lookup name with
      | none => simp [Value.truthy, hfields]
      | some w => rfl
    · rw [Path.holdsIn, Path.holdsIn, Path.lookup_insert_member front back v before after
        (hne (List.mem_append_right _ hp)) hself]

end

/-- A template sees a record only through the paths that it names. So a field or a member that it
does not name may be added, and a missing field may be there with nothing in it. -/
theorem render_reads_named_paths (t : Text) :
    (∀ data data' : Record, Alike (parse t) data data' → render t data = render t data') ∧
    (∀ (front back : Record) (name : Text) (v : Value), (∀ p ∈ namedAll (parse t), p.name ≠ name) →
      render t (front ++ (name, v) :: back) = render t (front ++ back)) ∧
    (∀ (front back before after : Record) (name m : Text) (v : Value),
      ⟨name, some m⟩ ∉ namedAll (parse t) →
      (⟨name, none⟩ ∈ testedAll (parse t) → before ++ after ≠ []) →
      render t (front ++ (name, .record (before ++ (m, v) :: after)) :: back) =
        render t (front ++ (name, .record (before ++ after)) :: back)) ∧
    (∀ (front back : Record) (name : Text), (front ++ back).lookup name = none →
      render t (front ++ (name, .text []) :: back) = render t (front ++ back) ∧
      render t (front ++ (name, .record []) :: back) = render t (front ++ back)) := by
  refine ⟨fun _ _ h => render_eq_of_alike h, ?field, ?member, ?hollow⟩
  case field =>
    intro front back name v hname
    exact render_eq_of_alike (alike_insert front back v hname)
  case member =>
    intro front back before after name m v hmember hrecord
    exact render_eq_of_alike (alike_insert_member front back v before after hmember hrecord)
  case hollow =>
    intro front back name hmissing
    constructor
    · exact render_eq_of_alike (alike_insert_hollow front back hmissing (.inl rfl) _)
    · exact render_eq_of_alike (alike_insert_hollow front back hmissing (.inr rfl) _)

def rootMark : Text :=
  "\x7b\x7b if .Env.Root \x7d\x7d#\x7b\x7b end \x7d\x7d\x7b\x7b .User \x7d\x7d".toList

/-- Not being root shows in no way, be it said or not. -/
theorem render_reads_named_paths_rootMark :
    let user : Record := [("User".toList, .text "a".toList)]
    let mode : Text × Value := ("Mode".toList, .int 1)
    let root : Text × Value := ("Root".toList, .bool false)
    render rootMark (("Env".toList, .record [root]) :: user) =
        render rootMark (("Env".toList, .text "x".toList) :: user) ∧
      render rootMark (mode :: user) = render rootMark user ∧
      render rootMark (("Env".toList, .record [root, mode]) :: user) =
        render rootMark (("Env".toList, .record [root]) :: user) ∧
      render rootMark (("Env".toList, .record []) :: user) = render rootMark user ∧
      render rootMark user = "a".toList := by
  intro user mode root
  obtain ⟨halike, hfield, hmember, hhollow⟩ := render_reads_named_paths rootMark
  refine ⟨halike _ _ ⟨?_, ?_⟩, hfield [] user _ _ ?_, hmember [] user [root] [] _ _ _ ?_ ?_,
    (hhollow [] user _ ?_).2, ?_⟩
  all_goals decide +kernel

end Template
end ThemedPrompt
