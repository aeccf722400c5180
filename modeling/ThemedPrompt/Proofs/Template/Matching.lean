import ThemedPrompt.Template.Tree

/-! # Matching tags with a stack

The tokens are read once, from the left, with the open conditionals on a stack. An `end` closes the
one that was opened last, and the first `else` of a conditional divides it. A conditional that is
still open after the last token is literal text with its contents in between. Every token stands in
one place of the result, in the order of the source.
-/
namespace ThemedPrompt
namespace Template

/-- A node and the tokens that it stands for. -/
inductive Mark
  | literal (pieces : List Token)
  | field (inner : Text) (p : Path)
  | ifThen (opener : Text) (p : Path) (yes : List Mark) (closer : Text)
  | ifElse (opener : Text) (p : Path) (yes : List Mark) (middle : Text) (no : List Mark) (closer : Text)

mutual

def Mark.node : Mark → Node
  | .literal pieces => .literal (pieces.flatMap Token.source)
  | .field _ p => .field p
  | .ifThen _ p yes _ => .conditional p (nodesOf yes) []
  | .ifElse _ p yes _ no _ => .conditional p (nodesOf yes) (nodesOf no)

def nodesOf : List Mark → List Node
  | [] => []
  | m :: ms => m.node :: nodesOf ms

end

mutual

def Mark.tokens : Mark → List Token
  | .literal pieces => pieces
  | .field inner _ => [.tag inner]
  | .ifThen opener _ yes closer => .tag opener :: (tokensOf yes ++ [.tag closer])
  | .ifElse opener _ yes middle no closer =>
    .tag opener :: (tokensOf yes ++ .tag middle :: (tokensOf no ++ [.tag closer]))

def tokensOf : List Mark → List Token
  | [] => []
  | m :: ms => m.tokens ++ tokensOf ms

end

/-- Adds a literal token to marks in reverse, joining it to a literal just before. -/
def joinPiece (tok : Token) : List Mark → List Mark
  | .literal pieces :: ms => .literal (pieces ++ [tok]) :: ms
  | ms => .literal [tok] :: ms

/-- What has been read of a branch, or outside of all conditionals, in reverse. Texts are joined to
literals of the block, not to what was read before it. -/
structure Level where
  before : List Mark := []
  block : List Mark := []

namespace Level

def marks (l : Level) : List Mark := (l.block ++ l.before).reverse

def put (l : Level) (m : Mark) : Level := { l with block := m :: l.block }

def join (l : Level) (tok : Token) : Level := { l with block := joinPiece tok l.block }

/-- A tag that belongs to no conditional stands by itself. -/
def stray (l : Level) (tok : Token) : Level where
  before := .literal [tok] :: (l.block ++ l.before)

/-- A later `else` is joined to what was read, and nothing is joined to it. -/
def late (l : Level) (tok : Token) : Level where
  before := joinPiece tok (l.block ++ l.before)

end Level

/-- An open conditional: the level it stands in, its tag and, after its first `else`, its first
branch with this `else`. -/
structure Frame where
  enclosing : Level
  opener : Text
  p : Path
  divided : Option (List Mark × Text) := none

namespace Frame

def close (f : Frame) (marks : List Mark) (closer : Text) : Mark :=
  match f.divided with
  | none => .ifThen f.opener f.p marks closer
  | some (yes, middle) => .ifElse f.opener f.p yes middle marks closer

/-- The contents of a conditional that is never closed, with its tags as literals. -/
def contents (f : Frame) (marks : List Mark) : List Mark :=
  match f.divided with
  | none => marks
  | some (yes, middle) => yes ++ .literal [.tag middle] :: marks

def spill (f : Frame) (marks : List Mark) : List Mark :=
  f.enclosing.marks ++ .literal [.tag f.opener] :: f.contents marks

end Frame

structure Matcher where
  level : Level := {}
  stack : List Frame := []

namespace Matcher

def step (s : Matcher) (tok : Token) : Matcher :=
  match tok with
  | .text _ => { s with level := s.level.join tok }
  | .tag inner =>
    match Tag.ofInner inner with
    | .field p => { s with level := s.level.put (.field inner p) }
    | .ifTag p => { level := {}, stack := ⟨s.level, inner, p, none⟩ :: s.stack }
    | .elseTag =>
      match s.stack with
      | [] => { s with level := s.level.stray tok }
      | f :: rest =>
        match f.divided with
        | none => { level := {}, stack := { f with divided := some (s.level.marks, inner) } :: rest }
        | some _ => { s with level := s.level.late tok }
    | .endTag =>
      match s.stack with
      | [] => { s with level := s.level.stray tok }
      | f :: rest => { level := f.enclosing.put (f.close s.level.marks inner), stack := rest }
    | .unknown => { s with level := s.level.join tok }

/-- What is still open was never a conditional. -/
def finish (s : Matcher) : List Mark := s.stack.foldl (fun marks f => f.spill marks) s.level.marks

end Matcher

/-- The marks of a template's tokens. -/
def matching (ts : List Token) : List Mark := (ts.foldl Matcher.step {}).finish

theorem nodesOf_eq_map (ms : List Mark) : nodesOf ms = ms.map Mark.node := by
  induction ms with
  | nil => rfl
  | cons m ms ih => rw [nodesOf, ih, List.map_cons]

theorem tokensOf_eq_flatMap (ms : List Mark) : tokensOf ms = ms.flatMap Mark.tokens := by
  induction ms with
  | nil => rfl
  | cons m ms ih => rw [tokensOf, ih, List.flatMap_cons]

@[simp] theorem tokensOf_append (ms others : List Mark) :
    tokensOf (ms ++ others) = tokensOf ms ++ tokensOf others := by
  simp only [tokensOf_eq_flatMap, List.flatMap_append]

@[simp] theorem tokensOf_reverse_joinPiece (tok : Token) (ms : List Mark) :
    tokensOf (joinPiece tok ms).reverse = tokensOf ms.reverse ++ [tok] := by
  unfold joinPiece
  split
  · simp [tokensOf, Mark.tokens]
  · simp [tokensOf, Mark.tokens]

namespace Level
variable (l : Level)

@[simp] theorem tokensOf_marks_put (m : Mark) :
    tokensOf (l.put m).marks = tokensOf l.marks ++ m.tokens := by
  simp [marks, put, tokensOf]

@[simp] theorem tokensOf_marks_join (tok : Token) :
    tokensOf (l.join tok).marks = tokensOf l.marks ++ [tok] := by
  simp [marks, join]

@[simp] theorem tokensOf_marks_stray (tok : Token) :
    tokensOf (l.stray tok).marks = tokensOf l.marks ++ [tok] := by
  simp [marks, stray, tokensOf, Mark.tokens]

@[simp] theorem tokensOf_marks_late (tok : Token) :
    tokensOf (l.late tok).marks = tokensOf l.marks ++ [tok] := by
  simp only [marks, late, List.nil_append, tokensOf_reverse_joinPiece]

@[simp] theorem tokensOf_marks_empty : tokensOf ({} : Level).marks = [] := rfl

end Level

namespace Frame
variable (f : Frame) (ms : List Mark)

/-- The tokens of a conditional that is still open. -/
def tokens : List Token :=
  tokensOf f.enclosing.marks ++ .tag f.opener :: tokensOf (f.contents [])

theorem tokensOf_contents : tokensOf (f.contents ms) = tokensOf (f.contents []) ++ tokensOf ms := by
  unfold contents
  cases f.divided with
  | none => rfl
  | some branch => simp [tokensOf]

theorem tokensOf_spill : tokensOf (f.spill ms) = f.tokens ++ tokensOf ms := by
  simp [spill, tokens, tokensOf, Mark.tokens, tokensOf_contents f ms]

theorem tokensOf_close (closer : Text) :
    tokensOf f.enclosing.marks ++ (f.close ms closer).tokens =
      f.tokens ++ tokensOf ms ++ [.tag closer] := by
  unfold close tokens contents
  cases f.divided with
  | none => simp [Mark.tokens, tokensOf]
  | some branch => simp [Mark.tokens, tokensOf]

end Frame

namespace Matcher

/-- The frames below add their tokens in front. -/
theorem tokensOf_foldl_spill (stack : List Frame) (ms : List Mark) :
    tokensOf (stack.foldl (fun marks f => f.spill marks) ms) =
      (stack.reverse.flatMap Frame.tokens) ++ tokensOf ms := by
  induction stack generalizing ms with
  | nil => rfl
  | cons f stack ih => simp [ih, Frame.tokensOf_spill]

theorem tokensOf_finish (s : Matcher) :
    tokensOf s.finish = s.stack.reverse.flatMap Frame.tokens ++ tokensOf s.level.marks :=
  tokensOf_foldl_spill s.stack s.level.marks

/-- Every step adds its token behind all others. -/
theorem tokensOf_finish_step (s : Matcher) (tok : Token) :
    tokensOf (s.step tok).finish = tokensOf s.finish ++ [tok] := by
  obtain ⟨level, stack⟩ := s
  simp only [tokensOf_finish]
  cases tok with
  | text t => simp [step]
  | tag inner =>
    cases h : Tag.ofInner inner with
    | field p => simp [step, h, Mark.tokens]
    | ifTag p => simp [step, h, Frame.tokens, Frame.contents, tokensOf]
    | unknown => simp [step, h]
    | endTag =>
      cases stack with
      | nil => simp [step, h]
      | cons f rest => simp [step, h, Frame.tokensOf_close]
    | elseTag =>
      cases stack with
      | nil => simp [step, h]
      | cons f rest =>
        cases hdivided : f.divided with
        | none => simp [step, h, hdivided, Frame.tokens, Frame.contents, tokensOf, Mark.tokens]
        | some branch => simp [step, h, hdivided]

theorem tokensOf_finish_foldl (s : Matcher) (ts : List Token) :
    tokensOf (ts.foldl step s).finish = tokensOf s.finish ++ ts := by
  induction ts generalizing s with
  | nil => simp
  | cons tok ts ih => rw [List.foldl_cons, ih, tokensOf_finish_step, List.append_assoc]; rfl

end Matcher

/-- Nothing is lost, doubled or moved. -/
theorem tokensOf_matching (ts : List Token) : tokensOf (matching ts) = ts :=
  Matcher.tokensOf_finish_foldl {} ts

end Template
end ThemedPrompt
