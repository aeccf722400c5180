import Mathlib.Data.List.Basic
import ThemedPrompt.Proofs.Context.DisplayedPaths
import ThemedPrompt.Proofs.Prompt.Composed

/-! # What a prompt reads

Each kind of segment reads a few aspects of the context and the moment, whatever its template asks
for. A prompt reads what the kinds of its segments read and nothing more: neither the name of the
system, nor the time unless it shows it, nor what a block of another kind would show.
-/
namespace ThemedPrompt

def Moment.afternoon : Moment := ⟨2024, 3, 7, 14, 5, 9⟩

inductive Aspect
  | userName
  | hostName
  | shell
  | workingDirectory
  | home
  | system
  | wsl
  | root
  | code
  | now
deriving DecidableEq, Repr

namespace Aspect

/-- Whether two contexts at two moments do not differ in an aspect. -/
def Same (c c' : Context) (now now' : Moment) : Aspect → Prop
  | .userName => c.userName = c'.userName
  | .hostName => c.hostName = c'.hostName
  | .shell => c.shell = c'.shell
  | .workingDirectory => c.workingDirectory = c'.workingDirectory
  | .home => c.home = c'.home
  | .system => c.system = c'.system
  | .wsl => c.wsl = c'.wsl
  | .root => c.root = c'.root
  | .code => c.code = c'.code
  | .now => now = now'

theorem same_of_ne_system {a : Aspect} (h : a ≠ .system) (c : Context) (system : Text)
    (now : Moment) : a.Same { c with system } c now now := by
  cases a with
  | system => exact absurd rfl h
  | _ => exact rfl

theorem same_of_ne_now {a : Aspect} (h : a ≠ .now) (c : Context) (now now' : Moment) :
    a.Same c c now now' := by
  cases a with
  | now => exact absurd rfl h
  | _ => exact rfl

/-- The default context in the afternoon, with nothing else than an aspect changed. -/
def changed : Aspect → Context × Moment
  | .userName => ({ userName := ['x'] }, .afternoon)
  | .hostName => ({ hostName := ['x'] }, .afternoon)
  | .shell => ({ shell := ['x'] }, .afternoon)
  | .workingDirectory => ({ workingDirectory := ['/'] }, .afternoon)
  | .home => ({ home := ['x'] }, .afternoon)
  | .system => ({ system := ['x'] }, .afternoon)
  | .wsl => ({ wsl := true }, .afternoon)
  | .root => ({ root := true }, .afternoon)
  | .code => ({ code := 1 }, .afternoon)
  | .now => ({}, { Moment.afternoon with second := 10 })

/-- A template that shows an aspect, if it is for a kind that reads it. -/
def telling : Aspect → Text
  | .userName => "\x7b\x7b.UserName\x7d\x7d".toList
  | .hostName => "\x7b\x7b.HostName\x7d\x7d".toList
  | .shell => "\x7b\x7b.Name\x7d\x7d".toList
  | .workingDirectory | .home => "\x7b\x7b.Path\x7d\x7d".toList
  | .wsl => "\x7b\x7b.WSL\x7d\x7d".toList
  | .code => "\x7b\x7b.Code\x7d\x7d".toList
  | .now => "\x7b\x7b.currentTime\x7d\x7d".toList
  | .root | .system => ['!']

theorem same_changed {a b : Aspect} (h : b ≠ a) :
    b.Same {} a.changed.1 .afternoon a.changed.2 := by
  cases a <;> cases b <;> trivial

end Aspect

namespace Kind

/-- What a segment of a kind may read. -/
def reads : Kind → List Aspect
  | .shell => [.shell]
  | .path => [.workingDirectory, .home]
  | .time => [.now]
  | .session | .user => [.userName, .hostName]
  | .root => [.root]
  | .status | .exit => [.code]
  | .os => [.wsl]
  | .git | .text | .other _ => []

theorem system_notMem_reads (k : Kind) : .system ∉ k.reads := by
  cases k <;> simp [reads]

theorem now_mem_reads_iff (k : Kind) : .now ∈ k.reads ↔ k = .time := by
  cases k <;> simp [reads]

variable {c c' : Context} {now now' : Moment}

theorem record?_eq_of_same (k : Kind) (h : ∀ a ∈ k.reads, a.Same c c' now now') :
    k.record? c now = k.record? c' now' := by
  cases k with
  | shell =>
    have hshell : c.shell = c'.shell := h .shell List.mem_cons_self
    simp [record?, hshell]
  | path =>
    have hdirectory : c.workingDirectory = c'.workingDirectory :=
      h .workingDirectory List.mem_cons_self
    have hhome : c.home = c'.home := h .home (by simp [reads])
    have hdisplay : c.displayPath = c'.displayPath := Context.displayPath_congr hhome hdirectory
    simp [record?, hdirectory, hdisplay]
  | time =>
    have hnow : now = now' := h .now List.mem_cons_self
    simp [record?, hnow]
  | session | user =>
    have hname : c.userName = c'.userName := h .userName List.mem_cons_self
    have hhost : c.hostName = c'.hostName := h .hostName (by simp [reads])
    simp [record?, hname, hhost]
  | root =>
    have hroot : c.root = c'.root := h .root List.mem_cons_self
    simp [record?, hroot]
  | status | exit =>
    have hcode : c.code = c'.code := h .code List.mem_cons_self
    simp [record?, hcode]
  | os =>
    have hwsl : c.wsl = c'.wsl := h .wsl List.mem_cons_self
    simp [record?, hwsl]
  | git | text | other _ => rfl

end Kind

namespace Segment
variable {c c' : Context} {now now' : Moment}

theorem content_eq_of_same (s : Segment) (h : ∀ a ∈ s.kind.reads, a.Same c c' now now') :
    s.content c now = s.content c' now' := by
  rw [content, content, s.kind.record?_eq_of_same h]

theorem part?_eq_of_same (s : Segment) (h : ∀ a ∈ s.kind.reads, a.Same c c' now now') (t : Theme)
    (alignment : Alignment) : s.part? t alignment c now = s.part? t alignment c' now' := by
  rw [part?, part?, s.content_eq_of_same h]

end Segment

namespace Kind

/-- What a kind may read is what some segment of it shows: a change of the aspect alone is seen. -/
theorem mem_reads_iff (k : Kind) (a : Aspect) : a ∈ k.reads ↔
    ∃ (s : Segment) (c c' : Context) (now now' : Moment), s.kind = k ∧
      (∀ b, b ≠ a → b.Same c c' now now') ∧ s.content c now ≠ s.content c' now' := by
  constructor
  · intro ha
    refine ⟨{ kind := k, template := some a.telling }, {}, a.changed.1, Moment.afternoon,
      a.changed.2, rfl, fun b => Aspect.same_changed, ?_⟩
    cases k with
    | shell | time | root | status | exit | os =>
      obtain rfl := List.mem_singleton.1 ha
      decide +kernel
    | path | session | user =>
      rcases List.mem_pair.1 ha with rfl | rfl
      · decide +kernel
      · decide +kernel
    | git | text | other _ => cases ha
  · rintro ⟨s, c, c', now, now', rfl, hsame, hne⟩
    by_contra ha
    exact hne (s.content_eq_of_same fun b hb => hsame b (ne_of_mem_of_not_mem hb ha))

end Kind

/-- The segments of the blocks that are rendered, visible or not. -/
def Theme.segments (t : Theme) : List Segment :=
  ((t.blocks.getD []).filter Block.isPrompt).flatMap Block.segments

/-- The theme with other segments in the blocks that are not rendered. -/
def Theme.withAside (t : Theme) (segments : Block → List Segment) : Theme :=
  { t with
    blocks := t.blocks.map (·.map fun b => if b.isPrompt then b else { b with segments := segments b }) }

namespace Prompt

section
variable {c c' : Context} {now now' : Moment}

theorem items_eq_of_same (t : Theme) (b : Block)
    (h : b.isPrompt = true → ∀ s ∈ b.segments, ∀ a ∈ s.kind.reads, a.Same c c' now now') :
    b.items t c now = b.items t c' now' := by
  cases hprompt : b.isPrompt with
  | false => rw [b.items_of_not_isPrompt t c now hprompt, b.items_of_not_isPrompt t c' now' hprompt]
  | true =>
    have hparts : b.parts t c now = b.parts t c' now' :=
      List.filterMap_congr fun s hs => s.part?_eq_of_same (h hprompt s hs) t b.alignment
    rw [Block.items, Block.items, hparts]

theorem render_eq_of_same (fallback : Text) (t : Theme)
    (h : ∀ s ∈ t.segments, ∀ a ∈ s.kind.reads, a.Same c c' now now') :
    render fallback (some t) c now = render fallback (some t) c' now' := by
  cases hblocks : t.blocks with
  | none => simp only [render, hblocks, Option.elim_none]
  | some blocks =>
    have hsegments {b : Block} (hb : b ∈ blocks) (hprompt : b.isPrompt = true) {s : Segment}
        (hs : s ∈ b.segments) : s ∈ t.segments := by
      rw [Theme.segments, hblocks]
      exact List.mem_flatMap.2 ⟨b, List.mem_filter.2 ⟨hb, hprompt⟩, hs⟩
    have hitems : items t c now blocks = items t c' now' blocks :=
      List.flatMap_congr fun b hb => items_eq_of_same t b fun hprompt s hs =>
        h s (hsegments hb hprompt hs)
    simp only [render, hblocks, Option.elim_some, ofBlocks_eq_ofItems, hitems]

theorem render_withAside (fallback : Text) (t : Theme) (segments : Block → List Segment) :
    render fallback (some (t.withAside segments)) c now = render fallback (some t) c now := by
  cases hblocks : t.blocks with
  | none => simp only [render, Theme.withAside, hblocks, Option.map_none, Option.elim_none]
  | some blocks =>
    have hblock (b : Block) :
        (if b.isPrompt then b else { b with segments := segments b }).items (t.withAside segments) c
          now = b.items t c now := by
      cases hprompt : b.isPrompt with
      | false =>
        rw [b.items_of_not_isPrompt t c now hprompt]
        exact Block.items_of_not_isPrompt _ c now hprompt
      | true => rfl
    have hitems : items (t.withAside segments) c now
        (blocks.map fun b => if b.isPrompt then b else { b with segments := segments b }) =
          items t c now blocks := by
      rw [items, List.flatMap_map]
      exact List.flatMap_congr fun b _ => hblock b
    simp only [render, Theme.withAside, hblocks, Option.map_some, Option.elim_some,
      ofBlocks_eq_ofItems] at hitems ⊢
    rw [hitems]

end

/-- A prompt is the same wherever its segments read the same. It never reads the name of the system
or a block of another kind, and without a segment for it no moment. -/
theorem render_reads_aspects (fallback : Text) (t : Theme) :
    (∀ (c c' : Context) (now now' : Moment),
      (∀ s ∈ t.segments, ∀ a ∈ s.kind.reads, a.Same c c' now now') →
      render fallback (some t) c now = render fallback (some t) c' now') ∧
    (∀ (c : Context) (now : Moment) (system : Text),
      render fallback (some t) { c with system } now = render fallback (some t) c now) ∧
    (∀ (c : Context) (now : Moment) (segments : Block → List Segment),
      render fallback (some (t.withAside segments)) c now = render fallback (some t) c now) ∧
    ((∀ s ∈ t.segments, s.kind ≠ .time) → ∀ (c : Context) (now now' : Moment),
      render fallback (some t) c now = render fallback (some t) c now') := by
  refine ⟨fun _ _ _ _ h => render_eq_of_same fallback t h, ?system,
    fun _ _ segments => render_withAside fallback t segments, ?moment⟩
  case system =>
    intro c now system
    refine render_eq_of_same fallback t fun s _ a ha => ?_
    have hne : a ≠ .system := ne_of_mem_of_not_mem ha s.kind.system_notMem_reads
    exact Aspect.same_of_ne_system hne c system now
  case moment =>
    intro htime c now now'
    refine render_eq_of_same fallback t fun s hs a ha => ?_
    have hnotMem : .now ∉ s.kind.reads := fun h => htime s hs (s.kind.now_mem_reads_iff.1 h)
    exact Aspect.same_of_ne_now (ne_of_mem_of_not_mem ha hnotMem) c now now'

/-- A prompt about the user and the last command, with a clock on the side that is not rendered. -/
def clockAside : Theme :=
  { blocks := some
      [{ kind := "prompt".toList, segments := [{ kind := .user }, { kind := .status }] },
        { kind := "rprompt".toList, segments := [{ kind := .time }] }] }

/-- Another directory, another system, being root and another day do not show, nor does the clock. -/
theorem render_reads_aspects_clockAside :
    let elsewhere : Context :=
      { workingDirectory := ['/'], home := [], system := "windows".toList, wsl := true, root := true }
    render [] (some clockAside) {} .afternoon =
        render [] (some clockAside) elsewhere ⟨1999, 12, 31, 23, 59, 59⟩ ∧
      (∀ now, render [] (some clockAside) {} now = render [] (some clockAside) {} .afternoon) ∧
      (render [] (some clockAside) {} .afternoon).text = "user✓".toList := by
  intro elsewhere
  obtain ⟨hsame, -, -, hmoment⟩ := render_reads_aspects [] clockAside
  have hsegments : clockAside.segments = [{ kind := .user }, { kind := .status }] := by decide
  refine ⟨hsame _ _ _ _ ?_, fun now => hmoment ?_ {} now .afternoon, by decide +kernel⟩
  · rw [hsegments]
    simp [Kind.reads, Aspect.Same, elsewhere]
  · rw [hsegments]
    simp

end Prompt
end ThemedPrompt
