import ThemedPrompt.Proofs.Template.Descent
import ThemedPrompt.Proofs.Template.TagGrammar
import ThemedPrompt.Proofs.Template.TokenSource

/-! # Written trees

The ways of writing a tree out. A literal is not empty, has no opening brace and stands next to no
other literal; an empty `else` branch may be left out. The descent reads the tree back at any depth,
since it stops at the `else` and the `end` of the branch it is in.
-/
namespace ThemedPrompt
namespace Template

/-- Whether two nodes are told apart when one follows the other. -/
def Node.Apart : Node → Node → Prop
  | .literal _, .literal _ => False
  | _, _ => True

/-- Nodes and the tokens that they are written with. -/
inductive Written : List Node → List Token → Prop
  | nil : Written [] []
  | literal {t : Text} {nodes : List Node} {ts : List Token} (hne : t ≠ []) (hopen : '{' ∉ t)
      (hnext : ∀ next ∈ nodes.head?, (Node.literal t).Apart next) (hnodes : Written nodes ts) :
      Written (.literal t :: nodes) (.text t :: ts)
  | field {p : Path} {inner : Text} {nodes : List Node} {ts : List Token}
      (hfield : (Tag.field p).IsWritten inner) (hnodes : Written nodes ts) :
      Written (.field p :: nodes) (.tag inner :: ts)
  | ifThen {p : Path} {opener closer : Text} {yes nodes : List Node} {ys ts : List Token}
      (hopener : (Tag.ifTag p).IsWritten opener) (hyes : Written yes ys)
      (hcloser : Tag.endTag.IsWritten closer) (hnodes : Written nodes ts) :
      Written (.conditional p yes [] :: nodes) (.tag opener :: (ys ++ .tag closer :: ts))
  | ifElse {p : Path} {opener middle closer : Text} {yes no nodes : List Node} {ys ns ts : List Token}
      (hopener : (Tag.ifTag p).IsWritten opener) (hyes : Written yes ys)
      (hmiddle : Tag.elseTag.IsWritten middle) (hno : Written no ns)
      (hcloser : Tag.endTag.IsWritten closer) (hnodes : Written nodes ts) :
      Written (.conditional p yes no :: nodes)
        (.tag opener :: (ys ++ .tag middle :: (ns ++ .tag closer :: ts)))

namespace Written
variable {nodes : List Node} {ts : List Token}

theorem apart_of_head (h : Written nodes ts) {t : Text}
    (hnext : ∀ next ∈ nodes.head?, (Node.literal t).Apart next) :
    ∀ next ∈ ts.head?, (Token.text t).Apart next := by
  intro next hhead
  cases h with
  | nil => cases hhead
  | literal => exact (hnext _ rfl).elim
  | field => cases hhead; trivial
  | ifThen => cases hhead; trivial
  | ifElse => cases hhead; trivial

theorem separable (h : Written nodes ts) : Separable ts := by
  induction h with
  | nil => exact .nil
  | literal hne hopen hnext hnodes ih => exact ih.cons ⟨hne, hopen⟩ (hnodes.apart_of_head hnext)
  | field hfield _ ih => exact ih.cons_tag hfield.notMem_brace
  | ifThen hopener _ hcloser _ ihYes ih =>
    have hafter := ih.cons_tag hcloser.notMem_brace
    exact (ihYes.append_tag hafter).cons_tag hopener.notMem_brace
  | ifElse hopener _ hmiddle _ hcloser _ ihYes ihNo ih =>
    have hafter := ih.cons_tag hcloser.notMem_brace
    have hno := (ihNo.append_tag hafter).cons_tag hmiddle.notMem_brace
    exact (ihYes.append_tag hno).cons_tag hopener.notMem_brace

end Written

theorem pushLiteral_of_apart {nodes : List Node} {t : Text}
    (h : ∀ last ∈ nodes.head?, last.Apart (.literal t)) :
    pushLiteral nodes t = .literal t :: nodes := by
  cases nodes with
  | nil => rfl
  | cons last rest =>
    cases last with
    | literal u => exact (h _ rfl).elim
    | field p => rfl
    | conditional p yes no => rfl

/-- Whether every reader puts the nodes to those it has and goes on behind the tokens, unless two
literals meet. -/
def ReadAs (nodes : List Node) (ts : List Token) : Prop :=
  ∀ {α : Type} {f : List Node → List Token → α}, Reads f → ∀ (acc : List Node) (rest : List Token),
    (∀ last ∈ acc.head?, ∀ first ∈ nodes.head?, last.Apart first) →
      f acc (ts ++ rest) = f (nodes.reverse ++ acc) rest

namespace ReadAs
variable {nodes yes no : List Node} {ts ys ns rest : List Token} {opener middle closer : Text}

theorem after (h : ReadAs nodes ts) {node : Node} (hnode : ∀ next, node.Apart next) {α : Type}
    {f : List Node → List Token → α} (hf : Reads f) (acc : List Node) (rest : List Token) :
    f (node :: acc) (ts ++ rest) = f ((node :: nodes).reverse ++ acc) rest := by
  have hacc : ∀ last ∈ (node :: acc).head?, ∀ first ∈ nodes.head?, last.Apart first := by
    rintro last ⟨⟩ first _
    exact hnode first
  rw [h hf (node :: acc) rest hacc, List.reverse_cons, List.append_assoc, List.singleton_append]

theorem branch_endTag (h : ReadAs nodes ts) (hcloser : Tag.ofInner closer = .endTag)
    (rest : List Token) : (branch [] (ts ++ .tag closer :: rest)).val = (nodes, .endTag rest) := by
  rw [h reads_branch [] _ (by simp), Template.branch_endTag hcloser, List.append_nil,
    List.reverse_reverse]

theorem branch_elseTag (h : ReadAs nodes ts) (hmiddle : Tag.ofInner middle = .elseTag)
    (rest : List Token) :
    (branch [] (ts ++ .tag middle :: rest)).val = (nodes, .elseTag middle rest) := by
  rw [h reads_branch [] _ (by simp), Template.branch_elseTag hmiddle, List.append_nil,
    List.reverse_reverse]

theorem conditional_ifThen (hyes : ReadAs yes ys) (hcloser : Tag.ofInner closer = .endTag)
    (opener : Text) (p : Path) (rest : List Token) :
    (conditional opener p (ys ++ .tag closer :: rest)).val = ([.conditional p yes []], rest) :=
  conditional_of_endTag (hyes.branch_endTag hcloser rest) opener p

theorem conditional_ifElse (hyes : ReadAs yes ys) (hmiddle : Tag.ofInner middle = .elseTag)
    (hno : ReadAs no ns) (hcloser : Tag.ofInner closer = .endTag) (opener : Text) (p : Path)
    (rest : List Token) :
    (conditional opener p (ys ++ .tag middle :: (ns ++ .tag closer :: rest))).val =
      ([.conditional p yes no], rest) := by
  have hfirst := hyes.branch_elseTag hmiddle (ns ++ .tag closer :: rest)
  have hsecond := alternative_of_endTag (hno.branch_endTag hcloser rest) []
  exact conditional_of_elseTag hfirst hsecond opener p

end ReadAs

theorem Written.readAs {nodes : List Node} {ts : List Token} (h : Written nodes ts) :
    ReadAs nodes ts := by
  -- The hypotheses are about every reader, since a branch is not read by what reads the tree.
  induction h with
  | nil =>
    intro α f _ acc rest _
    rfl
  | literal _ _ hnext _ ih =>
    intro α f hf acc rest hacc
    have hpush := pushLiteral_of_apart (fun last hlast => hacc last hlast _ rfl)
    have hafter := ih hf (.literal _ :: acc) rest (by rintro last ⟨⟩; exact hnext)
    rw [List.cons_append, hf.text, hpush, hafter, List.reverse_cons, List.append_assoc,
      List.singleton_append]
  | field hfield _ ih =>
    intro α f hf acc rest _
    rw [List.cons_append, hf.field (Tag.ofInner_of_isWritten hfield)]
    refine ih.after ?_ hf acc rest
    exact fun _ => trivial
  | @ifThen p opener closer yes nodes ys ts hopener _ hcloser _ ihYes ih =>
    intro α f hf acc rest _
    have hread := ihYes.conditional_ifThen (Tag.ofInner_of_isWritten hcloser) opener p (ts ++ rest)
    have hstep := hf.conditional (Tag.ofInner_of_isWritten hopener) acc hread
    rw [List.cons_append, List.append_assoc, List.cons_append, hstep]
    refine ih.after ?_ hf acc rest
    exact fun _ => trivial
  | @ifElse p opener middle closer yes no nodes ys ns ts hopener _ hmiddle _ hcloser _ ihYes ihNo ih =>
    intro α f hf acc rest _
    have hread := ihYes.conditional_ifElse (Tag.ofInner_of_isWritten hmiddle) ihNo
      (Tag.ofInner_of_isWritten hcloser) opener p (ts ++ rest)
    have hstep := hf.conditional (Tag.ofInner_of_isWritten hopener) acc hread
    rw [List.cons_append, List.append_assoc, List.cons_append, List.append_assoc, List.cons_append,
      hstep]
    refine ih.after ?_ hf acc rest
    exact fun _ => trivial

theorem parse_written {nodes : List Node} {ts : List Token} (h : Written nodes ts) :
    parse (ts.flatMap Token.source) = nodes := by
  have hread := h.readAs reads_sequence [] [] (by simp)
  rw [parse, tokens_flatMap_source h.separable]
  simpa [sequence] using hread

mutual

def Node.WellFormed : Node → Prop
  | .literal t => t ≠ [] ∧ '{' ∉ t
  | .field p => p.Named
  | .conditional p yes no => p.Named ∧ WellFormedAll yes ∧ WellFormedAll no

def WellFormedAll : List Node → Prop
  | [] => True
  | node :: nodes => node.WellFormed ∧ (∀ next ∈ nodes.head?, node.Apart next) ∧ WellFormedAll nodes

end

theorem Written.wellFormedAll {nodes : List Node} {ts : List Token} (h : Written nodes ts) :
    WellFormedAll nodes := by
  induction h with
  | nil => trivial
  | literal hne hopen hnext _ ih => exact ⟨⟨hne, hopen⟩, hnext, ih⟩
  | field hfield _ ih => exact ⟨hfield.1, fun _ _ => trivial, ih⟩
  | ifThen hopener _ _ _ ihYes ih => exact ⟨⟨hopener.1, ihYes, trivial⟩, fun _ _ => trivial, ih⟩
  | ifElse hopener _ _ _ _ _ ihYes ihNo ih =>
    exact ⟨⟨hopener.1, ihYes, ihNo⟩, fun _ _ => trivial, ih⟩

mutual

theorem Node.exists_written (node : Node) (h : node.WellFormed) {nodes : List Node}
    {ts : List Token} (hnext : ∀ next ∈ nodes.head?, node.Apart next) (hnodes : Written nodes ts) :
    ∃ us, Written (node :: nodes) us := by
  cases node with
  | literal t => exact ⟨_, .literal h.1 h.2 hnext hnodes⟩
  | field p => exact ⟨_, .field ⟨h, Spaced.self p.source⟩ hnodes⟩
  | conditional p yes no =>
    obtain ⟨hp, hyes, hno⟩ := h
    obtain ⟨ys, hys⟩ := exists_written yes hyes
    obtain ⟨ns, hns⟩ := exists_written no hno
    have hopener : (Tag.ifTag p).IsWritten ('i' :: 'f' :: ([' '] ++ p.source)) :=
      ⟨hp, [' '], List.cons_ne_nil _ _, by decide, Spaced.self _⟩
    exact ⟨_, .ifElse hopener hys (Spaced.self _) hns (Spaced.self _) hnodes⟩

theorem exists_written (nodes : List Node) (h : WellFormedAll nodes) : ∃ ts, Written nodes ts := by
  cases nodes with
  | nil => exact ⟨[], .nil⟩
  | cons node nodes =>
    obtain ⟨hnode, hnext, hnodes⟩ := h
    obtain ⟨ts, hts⟩ := exists_written nodes hnodes
    exact Node.exists_written node hnode hnext hts

end

/-- The trees that can be written at all. -/
theorem exists_written_iff {nodes : List Node} : (∃ ts, Written nodes ts) ↔ WellFormedAll nodes := by
  constructor
  · rintro ⟨ts, hts⟩
    exact hts.wellFormedAll
  · exact exists_written nodes

end Template
end ThemedPrompt
