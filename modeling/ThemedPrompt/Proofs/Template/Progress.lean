import ThemedPrompt.Proofs.Template.Descent
import ThemedPrompt.Proofs.Template.Positions

/-! # Progress of the descent

No call of the descent moves back, and no turn of a loop stays where it is. So a bound of two for
each token that is left, and two more, is enough for any call; what it returns is what the descent
reads of the tokens that are left.
-/
namespace ThemedPrompt
namespace Template

def Terminator.ending : Terminator → List Token → Ending
  | .elseTag inner, after => .elseTag inner after
  | .endTag, after => .endTag after
  | .eof, _ => .exhausted

/-- Whether a call returns what the descent reads of the tokens before it, and leaves the tokens
that the descent leaves. -/
def Agrees : {α : Type} → Call α → (before : List Token) → Reading α → (after : List Token) → Prop
  | _, .block true nodes, before, r, after =>
    (branch nodes before).val = (r.nodes, r.stop.ending after) ∧ (r.stop = .eof → after = [])
  | _, .block false nodes, before, r, after => sequence nodes before = r.nodes ++ sequence [] after
  | _, .conditional inner p, before, r, after => (conditional inner p before).val = (r.nodes, after)
  | _, .alternative nodes, before, r, after =>
    (alternative nodes before).val = (r.nodes, if r.stop then some after else none) ∧
      (r.stop = false → after = [])
  | _, .sequence nodes, before, r, after => nodes ++ sequence [] before = r.nodes ∧ after = []

namespace Agrees
variable {b : Bool} {nodes : List Node} {inner : Text} {p : Path} {before after : List Token}
  {r : Reading Terminator}

theorem text (t : Text) (h : Agrees (.block b (pushLiteral nodes t)) before r after) :
    Agrees (.block b nodes) (.text t :: before) r after := by
  cases b with
  | true => exact ⟨(reads_branch.text nodes t before).trans h.1, h.2⟩
  | false => exact (reads_sequence.text nodes t before).trans h

theorem field (hinner : Tag.ofInner inner = .field p)
    (h : Agrees (.block b (.field p :: nodes)) before r after) :
    Agrees (.block b nodes) (.tag inner :: before) r after := by
  cases b with
  | true => exact ⟨(reads_branch.field hinner nodes before).trans h.1, h.2⟩
  | false => exact (reads_sequence.field hinner nodes before).trans h

theorem conditional {read : Reading Unit} {middle : List Token}
    (hinner : Tag.ofInner inner = .ifTag p)
    (hread : Agrees (.conditional inner p) before read middle)
    (h : Agrees (.block b (read.nodes.reverse ++ nodes)) middle r after) :
    Agrees (.block b nodes) (.tag inner :: before) r after := by
  cases b with
  | true => exact ⟨(reads_branch.conditional hinner nodes hread).trans h.1, h.2⟩
  | false => exact (reads_sequence.conditional hinner nodes hread).trans h

theorem unknown (hinner : Tag.ofInner inner = .unknown)
    (h : Agrees (.block b (pushLiteral nodes (tagSource inner))) before r after) :
    Agrees (.block b nodes) (.tag inner :: before) r after := by
  cases b with
  | true => exact ⟨(branch_unknown hinner nodes before).trans h.1, h.2⟩
  | false => exact (sequence_unknown hinner nodes before).trans h

theorem stray (hinner : Tag.ofInner inner = .elseTag ∨ Tag.ofInner inner = .endTag)
    (nodes : List Node) (pos : Nat) (before : List Token) :
    Agrees (.block false nodes) (.tag inner :: before) ⟨nodes.reverse, .eof, pos⟩
      (.tag inner :: before) := by
  rw [Agrees, sequence_stray hinner, sequence_stray hinner]
  rfl

theorem exhausted (nodes : List Node) (pos : Nat) :
    Agrees (.block b nodes) [] ⟨nodes.reverse, .eof, pos⟩ [] := by
  cases b with
  | true => exact ⟨branch_nil nodes, fun _ => rfl⟩
  | false => rw [Agrees, sequence_nil, sequence_nil, List.reverse_nil, List.append_nil]

end Agrees

/-- What holds of every call that returns. -/
structure Outcome {α : Type} (ts : List Token) (c : Call α) (pos : Nat) (r : Reading α) : Prop where
  forward : pos ≤ r.pos
  inside : r.pos ≤ ts.length
  agrees : Agrees c (ts.drop pos) r (ts.drop r.pos)

/-- Whether all calls within a bound have such an outcome. -/
def Sound (ts : List Token) (bound : Nat) : Prop :=
  ∀ {α : Type} (c : Call α) {pos : Nat} {r : Reading α}, pos ≤ ts.length →
    run ts bound c pos = some r → Outcome ts c pos r

theorem drop_of_getElem? {ts : List Token} {pos : Nat} {tok : Token} (h : ts[pos]? = some tok) :
    pos < ts.length ∧ ts.drop pos = tok :: ts.drop (pos + 1) := by
  obtain ⟨hlt, rfl⟩ := List.getElem?_eq_some_iff.1 h
  exact ⟨hlt, List.drop_eq_getElem_cons hlt⟩

section
variable {ts : List Token} {bound pos : Nat} {inner : Text}

/-- A block in a conditional takes the tag that ends it. -/
theorem outcome_block_closed (htok : ts[pos]? = some (.tag inner)) {nodes : List Node}
    {stop : Terminator}
    (hbranch : ∀ rest, (branch nodes (.tag inner :: rest)).val = (nodes.reverse, stop.ending rest))
    (hstop : stop ≠ .eof) :
    Outcome ts (.block true nodes) pos ⟨nodes.reverse, stop, pos + 1⟩ := by
  obtain ⟨hlt, hdrop⟩ := drop_of_getElem? htok
  refine ⟨Nat.le_succ _, hlt, ?_⟩
  rw [hdrop]
  exact ⟨hbranch _, fun h => absurd h hstop⟩

/-- Any other block leaves it where it is. -/
theorem outcome_block_stray (htok : ts[pos]? = some (.tag inner))
    (htag : Tag.ofInner inner = .elseTag ∨ Tag.ofInner inner = .endTag) (nodes : List Node) :
    Outcome ts (.block false nodes) pos ⟨nodes.reverse, .eof, pos⟩ := by
  obtain ⟨hlt, hdrop⟩ := drop_of_getElem? htok
  refine ⟨Nat.le_refl _, Nat.le_of_lt hlt, ?_⟩
  rw [hdrop]
  exact .stray htag nodes pos _

theorem outcome_block (ih : Sound ts bound) {b : Bool} {nodes : List Node} {r : Reading Terminator}
    (hpos : pos ≤ ts.length) (h : run ts (bound + 1) (.block b nodes) pos = some r) :
    Outcome ts (.block b nodes) pos r := by
  rw [run] at h
  cases htok : ts[pos]? with
  | none =>
    have hlength : ts.length ≤ pos := List.getElem?_eq_none_iff.1 htok
    rw [htok] at h
    obtain rfl := Option.some.inj h
    refine ⟨Nat.le_refl _, hpos, ?_⟩
    rw [List.drop_of_length_le hlength]
    exact .exhausted nodes pos
  | some tok =>
    obtain ⟨hlt, hdrop⟩ := drop_of_getElem? htok
    rw [htok] at h
    cases tok with
    | text t =>
      obtain ⟨hforward, hinside, hagrees⟩ := ih _ hlt h
      exact ⟨Nat.le_of_succ_le hforward, hinside, hdrop ▸ hagrees.text t⟩
    | tag inner =>
      cases htag : Tag.ofInner inner with
      | field p =>
        simp only [htag] at h
        obtain ⟨hforward, hinside, hagrees⟩ := ih _ hlt h
        exact ⟨Nat.le_of_succ_le hforward, hinside, hdrop ▸ hagrees.field htag⟩
      | ifTag p =>
        simp only [htag] at h
        obtain ⟨read, hread, hrest⟩ := Option.bind_eq_some_iff.1 h
        obtain ⟨hforward, hinside, hagrees⟩ := ih _ hlt hread
        obtain ⟨hforward', hinside', hagrees'⟩ := ih _ hinside hrest
        refine ⟨Nat.le_trans (Nat.le_of_succ_le hforward) hforward', hinside', ?_⟩
        rw [hdrop]
        exact .conditional htag hagrees hagrees'
      | unknown =>
        simp only [htag] at h
        obtain ⟨hforward, hinside, hagrees⟩ := ih _ hlt h
        exact ⟨Nat.le_of_succ_le hforward, hinside, hdrop ▸ hagrees.unknown htag⟩
      | elseTag =>
        simp only [htag] at h
        cases b with
        | true =>
          obtain rfl := Option.some.inj h
          exact outcome_block_closed htok (branch_elseTag htag nodes) (by rintro ⟨⟩)
        | false =>
          obtain rfl := Option.some.inj h
          exact outcome_block_stray htok (.inl htag) nodes
      | endTag =>
        simp only [htag] at h
        cases b with
        | true =>
          obtain rfl := Option.some.inj h
          exact outcome_block_closed htok (branch_endTag htag nodes) (by rintro ⟨⟩)
        | false =>
          obtain rfl := Option.some.inj h
          exact outcome_block_stray htok (.inr htag) nodes

theorem outcome_conditional (ih : Sound ts bound) {inner : Text} {p : Path} {r : Reading Unit}
    (hpos : pos ≤ ts.length) (h : run ts (bound + 1) (.conditional inner p) pos = some r) :
    Outcome ts (.conditional inner p) pos r := by
  rw [run] at h
  obtain ⟨yes, hyes, h⟩ := Option.bind_eq_some_iff.1 h
  obtain ⟨hforward, hinside, hbranch, hexhausted⟩ := ih _ hpos hyes
  obtain ⟨read, stop, middle⟩ := yes
  cases stop with
  | endTag =>
    obtain rfl := Option.some.inj h
    exact ⟨hforward, hinside, conditional_of_endTag hbranch inner p⟩
  | elseTag elseInner =>
    obtain ⟨no, hno, rfl⟩ := Option.map_eq_some_iff.1 h
    obtain ⟨hforward', hinside', halternative, hexhausted'⟩ := ih _ hinside hno
    obtain ⟨readNo, closed, last⟩ := no
    refine ⟨Nat.le_trans hforward ?_, ?_, ?_⟩
    · cases closed <;> exact hforward'
    · cases closed <;> exact hinside'
    · cases closed with
      | true => exact conditional_of_elseTag hbranch halternative inner p
      | false =>
        have hunclosed := conditional_of_unclosed hbranch halternative inner p
        rwa [← hexhausted' rfl] at hunclosed
  | eof =>
    obtain rfl := Option.some.inj h
    refine ⟨hforward, hinside, ?_⟩
    have hunclosed := conditional_of_exhausted hbranch inner p
    rwa [← hexhausted rfl] at hunclosed

theorem outcome_alternative (ih : Sound ts bound) {nodes : List Node} {r : Reading Bool}
    (hpos : pos ≤ ts.length) (h : run ts (bound + 1) (.alternative nodes) pos = some r) :
    Outcome ts (.alternative nodes) pos r := by
  rw [run] at h
  obtain ⟨yes, hyes, h⟩ := Option.bind_eq_some_iff.1 h
  obtain ⟨hforward, hinside, hbranch, hexhausted⟩ := ih _ hpos hyes
  obtain ⟨read, stop, middle⟩ := yes
  cases stop with
  | endTag =>
    obtain rfl := Option.some.inj h
    exact ⟨hforward, hinside, alternative_of_endTag hbranch nodes, by rintro ⟨⟩⟩
  | elseTag inner =>
    obtain ⟨hforward', hinside', halternative, hexhausted'⟩ := ih _ hinside h
    exact ⟨Nat.le_trans hforward hforward', hinside',
      (alternative_of_elseTag hbranch nodes).trans halternative, hexhausted'⟩
  | eof =>
    obtain rfl := Option.some.inj h
    exact ⟨hforward, hinside, alternative_of_exhausted hbranch nodes, fun _ => hexhausted rfl⟩

theorem sequence_of_isCloser {tok : Token} (htok : tok.isCloser = true) (rest : List Token) :
    sequence [] (tok :: rest) = .literal tok.source :: sequence [] rest := by
  cases tok with
  | text t => cases htok
  | tag inner =>
    rw [Token.isCloser] at htok
    split at htok
    · next h => exact sequence_stray (.inl h) [] rest
    · next h => exact sequence_stray (.inr h) [] rest
    · cases htok

theorem outcome_sequence (ih : Sound ts bound) {nodes : List Node} {r : Reading Unit}
    (hpos : pos ≤ ts.length) (h : run ts (bound + 1) (.sequence nodes) pos = some r) :
    Outcome ts (.sequence nodes) pos r := by
  rw [run] at h
  cases htok : ts[pos]? with
  | none =>
    have hlength : ts.length ≤ pos := List.getElem?_eq_none_iff.1 htok
    rw [htok] at h
    obtain rfl := Option.some.inj h
    refine ⟨Nat.le_refl _, hpos, ?_⟩
    rw [List.drop_of_length_le hlength]
    exact ⟨by rw [sequence_nil, List.reverse_nil, List.append_nil], rfl⟩
  | some tok =>
    obtain ⟨hlt, hdrop⟩ := drop_of_getElem? htok
    rw [htok] at h
    dsimp only at h
    split at h
    · next hcloser =>
      obtain ⟨hforward, hinside, hnodes, hafter⟩ := ih _ hlt h
      refine ⟨Nat.le_of_succ_le hforward, hinside, ?_, hafter⟩
      rw [hdrop, sequence_of_isCloser hcloser, ← hnodes, List.append_assoc]
      rfl
    · obtain ⟨read, hread, hrest⟩ := Option.bind_eq_some_iff.1 h
      obtain ⟨hforward, hinside, hblock⟩ := ih _ hpos hread
      obtain ⟨hforward', hinside', hnodes, hafter⟩ := ih _ hinside hrest
      refine ⟨Nat.le_trans hforward hforward', hinside', ?_, hafter⟩
      rw [Agrees] at hblock
      rw [hblock, ← hnodes, List.append_assoc]

end

theorem sound (ts : List Token) (bound : Nat) : Sound ts bound := by
  induction bound with
  | zero =>
    intro α c pos r _ h
    cases h
  | succ bound ih =>
    intro α c pos r hpos h
    cases c with
    | block inBranch nodes => exact outcome_block ih hpos h
    | conditional inner p => exact outcome_conditional ih hpos h
    | alternative nodes => exact outcome_alternative ih hpos h
    | sequence nodes => exact outcome_sequence ih hpos h

section
variable {ts : List Token} {bound pos : Nat} {nodes : List Node}

/-- A block stays where it is only in front of a tag that it leaves to its caller, or at the end. -/
theorem lt_of_run_block {b : Bool} {tok : Token} {r : Reading Terminator} (htok : ts[pos]? = some tok)
    (hread : b = true ∨ tok.isCloser = false)
    (h : run ts bound (.block b nodes) pos = some r) : pos < r.pos := by
  cases bound with
  | zero => cases h
  | succ bound =>
    obtain ⟨hlt, -⟩ := drop_of_getElem? htok
    rw [run, htok] at h
    cases tok with
    | text t => exact (sound ts bound _ hlt h).forward
    | tag inner =>
      cases htag : Tag.ofInner inner with
      | field p | unknown =>
        simp only [htag] at h
        exact (sound ts bound _ hlt h).forward
      | ifTag p =>
        simp only [htag] at h
        obtain ⟨read, hread, hrest⟩ := Option.bind_eq_some_iff.1 h
        have houtcome := sound ts bound _ hlt hread
        exact Nat.lt_of_lt_of_le houtcome.forward (sound ts bound _ houtcome.inside hrest).forward
      | elseTag | endTag =>
        obtain rfl : b = true := by simpa [Token.isCloser, htag] using hread
        simp only [htag] at h
        obtain rfl := Option.some.inj h
        exact Nat.lt_succ_self pos

/-- Inside of a conditional only the end of the tokens ends a block without a tag. -/
theorem stop_eq_eof_of_getElem? {b : Bool} {r : Reading Terminator} (hend : ts[pos]? = none)
    (h : run ts bound (.block b nodes) pos = some r) : r.stop = .eof := by
  cases bound with
  | zero => cases h
  | succ bound =>
    rw [run, hend] at h
    obtain rfl := Option.some.inj h
    rfl

/-- The `else` that ends a branch is taken. -/
theorem lt_of_run_block_elseTag {read : List Node} {inner : Text} {pos' : Nat}
    (h : run ts bound (.block true nodes) pos = some ⟨read, .elseTag inner, pos'⟩) : pos < pos' := by
  cases htok : ts[pos]? with
  | none => cases stop_eq_eof_of_getElem? htok h
  | some tok => exact lt_of_run_block htok (.inl rfl) h

theorem lt_of_alternativeTurn {s : List Node × Nat} (hpos : pos ≤ ts.length)
    (h : alternativeTurn ts bound nodes pos = some (.inr s)) : pos < s.2 ∧ s.2 ≤ ts.length := by
  obtain ⟨r, hread, hturn⟩ := Option.map_eq_some_iff.1 h
  have hinside := (sound ts bound _ hpos hread).inside
  obtain ⟨read, stop, middle⟩ := r
  cases stop with
  | elseTag inner =>
    obtain rfl := Sum.inr.inj hturn
    exact ⟨lt_of_run_block_elseTag hread, hinside⟩
  | endTag | eof => cases hturn

theorem lt_of_sequenceTurn {s : List Node × Nat}
    (h : sequenceTurn ts bound nodes pos = some (.inr s)) : pos < s.2 ∧ s.2 ≤ ts.length := by
  rw [sequenceTurn] at h
  split at h
  · cases h
  · next tok htok =>
    obtain ⟨hlt, -⟩ := drop_of_getElem? htok
    split at h
    · obtain rfl := Sum.inr.inj (Option.some.inj h)
      exact ⟨Nat.lt_succ_self pos, hlt⟩
    · next hcloser =>
      obtain ⟨r, hread, hturn⟩ := Option.map_eq_some_iff.1 h
      obtain rfl := Sum.inr.inj hturn
      exact ⟨lt_of_run_block htok (.inr (Bool.eq_false_iff.2 hcloser)) hread,
        (sound ts bound _ (Nat.le_of_lt hlt) hread).inside⟩

end

/-- How many calls in a row are enough for a call with so many tokens left. -/
def Call.cost : {α : Type} → Call α → (left : Nat) → Nat
  | _, .block _ _, left => 2 * left + 1
  | _, .conditional _ _, left => 2 * left + 2
  | _, .alternative _, left => 2 * left + 2
  | _, .sequence _, left => 2 * left + 2

theorem Call.cost_le {α : Type} (c : Call α) (left : Nat) : c.cost left ≤ 2 * left + 2 := by
  cases c with
  | block inBranch nodes => exact Nat.le_succ _
  | conditional | alternative | sequence => exact Nat.le_refl _

/-- Whether a bound is enough for all calls that cost no more. -/
def Enough (ts : List Token) (bound : Nat) : Prop :=
  ∀ {α : Type} (c : Call α) {pos : Nat}, pos ≤ ts.length → c.cost (ts.length - pos) ≤ bound →
    ∃ r, run ts bound c pos = some r

section
variable {ts : List Token} {bound pos : Nat} {nodes : List Node}

theorem exists_run_block (ih : Enough ts bound) {b : Bool}
    (hcost : 2 * (ts.length - pos) ≤ bound) :
    ∃ r, run ts (bound + 1) (.block b nodes) pos = some r := by
  rw [run]
  cases htok : ts[pos]? with
  | none => exact ⟨_, rfl⟩
  | some tok =>
    obtain ⟨hlt, -⟩ := drop_of_getElem? htok
    have hrest (next : List Node) {pos' : Nat} (hforward : pos < pos') (hinside : pos' ≤ ts.length) :
        ∃ r, run ts bound (.block b next) pos' = some r :=
      ih _ hinside (by rw [Call.cost]; omega)
    cases tok with
    | text t => exact hrest _ (Nat.lt_succ_self pos) hlt
    | tag inner =>
      cases htag : Tag.ofInner inner with
      | field p | unknown =>
        simp only [htag]
        exact hrest _ (Nat.lt_succ_self pos) hlt
      | ifTag p =>
        have hcost' : (Call.conditional inner p).cost (ts.length - (pos + 1)) ≤ bound := by
          rw [Call.cost]
          omega
        obtain ⟨read, hread⟩ := ih (.conditional inner p) hlt hcost'
        obtain ⟨hforward, hinside, -⟩ := sound ts bound _ hlt hread
        obtain ⟨r, hr⟩ := hrest (read.nodes.reverse ++ nodes) hforward hinside
        simp only [htag]
        exact ⟨r, Option.bind_eq_some_iff.2 ⟨read, hread, hr⟩⟩
      | elseTag | endTag =>
        simp only [htag]
        cases b <;> exact ⟨_, rfl⟩

theorem exists_alternativeTurn (ih : Enough ts bound) (hpos : pos ≤ ts.length)
    (hcost : 2 * (ts.length - pos) + 1 ≤ bound) (nodes : List Node) :
    ∃ turn, alternativeTurn ts bound nodes pos = some turn := by
  obtain ⟨r, hr⟩ := ih (.block true []) hpos hcost
  exact ⟨_, Option.map_eq_some_iff.2 ⟨r, hr, rfl⟩⟩

theorem exists_sequenceTurn (ih : Enough ts bound) (hpos : pos ≤ ts.length)
    (hcost : 2 * (ts.length - pos) + 1 ≤ bound) (nodes : List Node) :
    ∃ turn, sequenceTurn ts bound nodes pos = some turn := by
  rw [sequenceTurn]
  cases ts[pos]? with
  | none => exact ⟨_, rfl⟩
  | some tok =>
    dsimp only
    split
    · exact ⟨_, rfl⟩
    · obtain ⟨r, hr⟩ := ih (.block false []) hpos hcost
      exact ⟨_, Option.map_eq_some_iff.2 ⟨r, hr, rfl⟩⟩

theorem exists_run_alternative (ih : Enough ts bound) (hpos : pos ≤ ts.length)
    (hcost : 2 * (ts.length - pos) + 1 ≤ bound) :
    ∃ r, run ts (bound + 1) (.alternative nodes) pos = some r := by
  obtain ⟨turn, hturn⟩ := exists_alternativeTurn ih hpos hcost nodes
  rw [run_alternative, hturn]
  cases turn with
  | inl r => exact ⟨r, rfl⟩
  | inr s =>
    obtain ⟨hforward, hinside⟩ := lt_of_alternativeTurn hpos hturn
    exact ih (.alternative s.1) hinside (by rw [Call.cost]; omega)

theorem exists_run_sequence (ih : Enough ts bound) (hpos : pos ≤ ts.length)
    (hcost : 2 * (ts.length - pos) + 1 ≤ bound) :
    ∃ r, run ts (bound + 1) (.sequence nodes) pos = some r := by
  obtain ⟨turn, hturn⟩ := exists_sequenceTurn ih hpos hcost nodes
  rw [run_sequence, hturn]
  cases turn with
  | inl r => exact ⟨r, rfl⟩
  | inr s =>
    obtain ⟨hforward, hinside⟩ := lt_of_sequenceTurn hturn
    exact ih (.sequence s.1) hinside (by rw [Call.cost]; omega)

theorem exists_run_conditional (ih : Enough ts bound) (hpos : pos ≤ ts.length)
    (hcost : 2 * (ts.length - pos) + 1 ≤ bound) (inner : Text) (p : Path) :
    ∃ r, run ts (bound + 1) (.conditional inner p) pos = some r := by
  obtain ⟨yes, hyes⟩ := ih (.block true []) hpos hcost
  obtain ⟨-, hinside, -⟩ := sound ts bound _ hpos hyes
  rw [run, hyes]
  obtain ⟨read, stop, middle⟩ := yes
  dsimp only at hinside
  cases stop with
  | endTag | eof => exact ⟨_, rfl⟩
  | elseTag elseInner =>
    have hforward := lt_of_run_block_elseTag hyes
    have hcost' : (Call.alternative []).cost (ts.length - middle) ≤ bound := by
      rw [Call.cost]
      omega
    obtain ⟨no, hno⟩ := ih (.alternative []) hinside hcost'
    exact ⟨_, Option.map_eq_some_iff.2 ⟨no, hno, rfl⟩⟩

end

theorem enough (ts : List Token) (bound : Nat) : Enough ts bound := by
  induction bound with
  | zero =>
    intro α c pos _ hcost
    cases c <;> simp [Call.cost] at hcost
  | succ bound ih =>
    intro α c pos hpos hcost
    cases c with
    | block inBranch nodes => exact exists_run_block ih (Nat.le_of_succ_le_succ hcost)
    | conditional inner p =>
      exact exists_run_conditional ih hpos (Nat.le_of_succ_le_succ hcost) inner p
    | alternative nodes => exact exists_run_alternative ih hpos (Nat.le_of_succ_le_succ hcost)
    | sequence nodes => exact exists_run_sequence ih hpos (Nat.le_of_succ_le_succ hcost)

/-- Every call of the descent returns, wherever it starts, and returns one reading, which is what the
descent reads there. No call moves back, a turn of a loop that is not the last takes a token at least,
and a branch without a tag at its end has come to the end of the tokens. So has the descent over all
of them. -/
theorem run_forward_to_end (ts : List Token) :
    (∀ {α : Type} (c : Call α) (pos : Nat), pos ≤ ts.length → ∃ r : Reading α,
      (∀ bound, 2 * (ts.length - pos) + 2 ≤ bound → run ts bound c pos = some r) ∧
      (∀ bound other, run ts bound c pos = some other → other = r) ∧
      pos ≤ r.pos ∧ r.pos ≤ ts.length ∧ Agrees c (ts.drop pos) r (ts.drop r.pos)) ∧
    (∀ bound nodes pos s, pos ≤ ts.length →
      alternativeTurn ts bound nodes pos = some (.inr s) → pos < s.2) ∧
    (∀ bound nodes pos s, sequenceTurn ts bound nodes pos = some (.inr s) → pos < s.2) ∧
    (∀ bound nodes pos r, pos ≤ ts.length → run ts bound (.block true nodes) pos = some r →
      r.stop = .eof → r.pos = ts.length) ∧
    ∀ bound, 2 * ts.length + 2 ≤ bound →
      run ts bound (.sequence []) 0 = some ⟨sequence [] ts, (), ts.length⟩ := by
  have hlast {pos : Nat} (hinside : pos ≤ ts.length) (h : ts.drop pos = []) : pos = ts.length :=
    Nat.le_antisymm hinside (List.drop_eq_nil_iff.1 h)
  refine ⟨fun c pos hpos => ?_, fun bound nodes pos s hpos h => (lt_of_alternativeTurn hpos h).1,
    fun bound nodes pos s h => (lt_of_sequenceTurn h).1, fun bound nodes pos r hpos h hstop => ?_,
    fun bound hbound => ?_⟩
  · obtain ⟨r, hr⟩ := enough ts _ c hpos (c.cost_le _)
    obtain ⟨hforward, hinside, hagrees⟩ := sound ts _ c hpos hr
    exact ⟨r, fun bound hbound => run_mono hbound c hr, fun bound other h => run_unique h hr,
      hforward, hinside, hagrees⟩
  · obtain ⟨-, hinside, -, hafter⟩ := sound ts bound _ hpos h
    exact hlast hinside (hafter hstop)
  · obtain ⟨⟨nodes, stop, pos⟩, h⟩ := enough ts bound (.sequence []) (Nat.zero_le _) hbound
    obtain ⟨-, hinside, rfl, hafter⟩ := sound ts bound _ (Nat.zero_le _) h
    obtain rfl := hlast hinside hafter
    exact h

/-- A stray `end`, and an `if` that is never closed with an `else` too many. -/
theorem run_forward_to_end_unclosed :
    let ts : List Token := [.tag "end".toList, .tag "if .A".toList, .tag "else".toList,
      .tag "else".toList, .text "x".toList]
    run ts 12 (.sequence []) 0 = some ⟨sequence [] ts, (), 5⟩ ∧
      (∃ r : Reading Unit, run ts 8 (.conditional "if .A".toList ⟨"A".toList, none⟩) 2 = some r ∧
        2 ≤ r.pos ∧ r.pos ≤ 5) ∧
      (∃ s, sequenceTurn ts 1 [] 0 = some (.inr s) ∧ 0 < s.2) ∧
      (∃ s, alternativeTurn ts 2 [] 3 = some (.inr s) ∧ 3 < s.2) ∧
      ∃ r, run ts 2 (.block true []) 4 = some r ∧ r.stop = .eof ∧ r.pos = 5 := by
  intro ts
  obtain ⟨hreturns, halternative, hstray, heof, hsequence⟩ := run_forward_to_end ts
  obtain ⟨r, hrun, -, hforward, hinside, -⟩ :=
    hreturns (.conditional "if .A".toList ⟨"A".toList, none⟩) 2 (by decide)
  refine ⟨hsequence 12 (by decide), ⟨r, hrun 8 (by decide), hforward, hinside⟩, ?_, ?_, ?_⟩
  · exact ⟨_, rfl, hstray 1 [] 0 _ rfl⟩
  · exact ⟨_, rfl, halternative 2 [] 3 _ (by decide) rfl⟩
  · exact ⟨_, rfl, rfl, heof 2 [] 4 _ (by decide) rfl rfl⟩

end Template
end ThemedPrompt
