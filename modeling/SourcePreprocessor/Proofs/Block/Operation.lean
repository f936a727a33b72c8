import SourcePreprocessor.Block
import SourcePreprocessor.Proofs.InPlace

/-!
# Operations on the open blocks

An operation is what a conditional directive asks of the stack. What one of them can do when it
succeeds is said once (`Changes`), and everything else goes by its cases.

The operations of the library give a new stack or fail. Here they also stand as steps in place, which
write the flags of the innermost frame one after the other (`BlockOperation.steps`):

> `exec_steps`: the steps of an operation come to the stack that the operation gives, and where it
> fails, they fail before they have written anything.
-/

namespace SourcePreprocessor

/-- A change of the open blocks. -/
inductive BlockOperation where
  | enter (condition : Option Bool) (d : Directive) (line : Nat)
  | elseIf (condition : Option Bool) (d : Directive)
  | otherwise (d : Directive)
  | close (d : Directive)
  deriving DecidableEq, Repr

namespace BlockOperation

/-- The blocks after an operation, or why it fails. -/
def apply (b : BlockStack) : BlockOperation → Except StructureError BlockStack
  | .enter condition d line => .ok (b.enter condition d line)
  | .elseIf condition d => b.elseIf condition d
  | .otherwise d => b.otherwise d
  | .close d => b.close d

end BlockOperation

/-! ## What an operation does -/

namespace Frame

/-- The block at a further branch with a condition. -/
def atElseIf (f : Frame) (condition : Option Bool) : Frame :=
  let selected := f.enclosed && !f.taken && condition.getD false
  { f with selected, taken := f.taken || selected }

/-- The block at its branch without a condition. -/
def atOtherwise (f : Frame) : Frame :=
  { f with selected := f.enclosed && !f.taken, taken := true, elseSeen := true }

@[simp] theorem openedBy_atElseIf (f : Frame) (condition : Option Bool) :
    (f.atElseIf condition).openedBy = f.openedBy := rfl

@[simp] theorem openedAt_atElseIf (f : Frame) (condition : Option Bool) :
    (f.atElseIf condition).openedAt = f.openedAt := rfl

@[simp] theorem elseSeen_atElseIf (f : Frame) (condition : Option Bool) :
    (f.atElseIf condition).elseSeen = f.elseSeen := rfl

@[simp] theorem openedBy_atOtherwise (f : Frame) : f.atOtherwise.openedBy = f.openedBy := rfl

@[simp] theorem openedAt_atOtherwise (f : Frame) : f.atOtherwise.openedAt = f.openedAt := rfl

@[simp] theorem elseSeen_atOtherwise (f : Frame) : f.atOtherwise.elseSeen = true := rfl

end Frame

/-- The frame of a block that is opened inside the given ones. -/
def openedFrame (around : List Frame) (condition : Option Bool) (d : Directive) (line : Nat) :
    Frame :=
  let active := BlockStack.isActive ⟨around⟩
  let selected := active && condition.getD false
  { selected, taken := selected, enclosed := active, elseSeen := false
    openedBy := d, openedAt := line }

/-- What an operation makes of the frames, when it succeeds. -/
inductive Changes : List Frame → BlockOperation → List Frame → Prop
  | enter (frames : List Frame) (condition : Option Bool) (d : Directive) (line : Nat) :
    Changes frames (.enter condition d line) (openedFrame frames condition d line :: frames)
  | elseIf (f : Frame) (below : List Frame) (condition : Option Bool) (d : Directive)
    (unfinished : f.elseSeen = false) :
    Changes (f :: below) (.elseIf condition d) (f.atElseIf condition :: below)
  | otherwise (f : Frame) (below : List Frame) (d : Directive) (unfinished : f.elseSeen = false) :
    Changes (f :: below) (.otherwise d) (f.atOtherwise :: below)
  | close (f : Frame) (below : List Frame) (d : Directive) :
    Changes (f :: below) (.close d) below

namespace BlockStack

theorem branching_cons (f : Frame) (below : List Frame) (d : Directive) :
    branching ⟨f :: below⟩ d =
      if f.elseSeen then .error (.afterElse d) else .ok (f, below) := rfl

theorem needsCondition_cons (f : Frame) (below : List Frame) (d : Directive) :
    needsCondition ⟨f :: below⟩ d =
      if f.elseSeen then .error (.afterElse d) else .ok (f.enclosed && !f.taken) := by
  unfold needsCondition
  rw [branching_cons]
  cases f.elseSeen <;> rfl

theorem elseIf_cons (f : Frame) (below : List Frame) (condition : Option Bool) (d : Directive) :
    elseIf ⟨f :: below⟩ condition d =
      if f.elseSeen then .error (.afterElse d) else .ok ⟨f.atElseIf condition :: below⟩ := by
  unfold elseIf
  rw [branching_cons]
  cases f.elseSeen <;> rfl

theorem otherwise_cons (f : Frame) (below : List Frame) (d : Directive) :
    otherwise ⟨f :: below⟩ d =
      if f.elseSeen then .error (.afterElse d) else .ok ⟨f.atOtherwise :: below⟩ := by
  unfold otherwise
  rw [branching_cons]
  cases f.elseSeen <;> rfl

end BlockStack

/-- An operation succeeds exactly when it changes the frames. -/
theorem apply_eq_ok_iff {op : BlockOperation} {frames frames' : List Frame} :
    op.apply ⟨frames⟩ = .ok ⟨frames'⟩ ↔ Changes frames op frames' := by
  constructor
  · intro h
    cases op with
    | enter condition d line =>
      obtain rfl := congrArg BlockStack.frames (Except.ok.inj h)
      exact .enter frames condition d line
    | elseIf condition d =>
      cases frames with
      | nil => nomatch h
      | cons f below =>
        change BlockStack.elseIf _ _ _ = _ at h
        rw [BlockStack.elseIf_cons] at h
        cases hopen : f.elseSeen with
        | true => rw [hopen] at h; nomatch h
        | false =>
          rw [hopen] at h
          obtain rfl := congrArg BlockStack.frames (Except.ok.inj h)
          exact .elseIf f below condition d hopen
    | otherwise d =>
      cases frames with
      | nil => nomatch h
      | cons f below =>
        change BlockStack.otherwise _ _ = _ at h
        rw [BlockStack.otherwise_cons] at h
        cases hopen : f.elseSeen with
        | true => rw [hopen] at h; nomatch h
        | false =>
          rw [hopen] at h
          obtain rfl := congrArg BlockStack.frames (Except.ok.inj h)
          exact .otherwise f below d hopen
    | close d =>
      cases frames with
      | nil => nomatch h
      | cons f below =>
        obtain rfl := congrArg BlockStack.frames (Except.ok.inj h)
        exact .close f below d
  · intro h
    cases h with
    | enter frames condition d line => rfl
    | elseIf f below condition d hopen =>
      show BlockStack.elseIf _ _ _ = _
      rw [BlockStack.elseIf_cons, hopen]
      rfl
    | otherwise f below d hopen =>
      show BlockStack.otherwise _ _ = _
      rw [BlockStack.otherwise_cons, hopen]
      rfl
    | close f below d => rfl

/-! ## Operations in place -/

/-- Steps on the open blocks in place. -/
abbrev BlockSteps := InPlace BlockStack StructureError

namespace BlockSteps

/-- The innermost block, for a directive that needs an open block. -/
def innermost (d : Directive) : BlockSteps Frame := do
  match (← get).frames with
  | [] => throw (.withoutIf d)
  | frame :: _ => return frame

/-- Writes the innermost block. -/
def write (f : Frame → Frame) : BlockSteps Unit :=
  modify fun b => ⟨b.frames.modifyHead f⟩

/-- Opens a block. -/
def enter (condition : Option Bool) (d : Directive) (line : Nat) : BlockSteps Unit := do
  let enclosed := (← get).isActive
  let selected := enclosed && condition.getD false
  modify fun b => ⟨{ selected, taken := selected, enclosed, elseSeen := false
                     openedBy := d, openedAt := line } :: b.frames⟩

/-- Whether the condition of a further branch can select it. -/
def needsCondition (d : Directive) : BlockSteps Bool := do
  let frame ← innermost d
  if frame.elseSeen then throw (.afterElse d)
  return frame.enclosed && !frame.taken

/-- Goes on to a further branch with a condition. -/
def elseIf (condition : Option Bool) (d : Directive) : BlockSteps Unit := do
  let selectable ← needsCondition d
  write fun f => { f with selected := selectable && condition.getD false }
  write fun f => { f with taken := f.taken || f.selected }

/-- Goes on to the branch without a condition. -/
def otherwise (d : Directive) : BlockSteps Unit := do
  let frame ← innermost d
  if frame.elseSeen then throw (.afterElse d)
  write fun f => { f with elseSeen := true }
  write fun f => { f with selected := f.enclosed && !f.taken }
  write fun f => { f with taken := true }

/-- Closes the innermost block. -/
def close (d : Directive) : BlockSteps Unit := do
  match (← get).frames with
  | [] => throw (.withoutIf d)
  | _ :: others => set (⟨others⟩ : BlockStack)

end BlockSteps

namespace BlockOperation

/-- The steps of an operation. -/
def steps : BlockOperation → BlockSteps Unit
  | .enter condition d line => BlockSteps.enter condition d line
  | .elseIf condition d => BlockSteps.elseIf condition d
  | .otherwise d => BlockSteps.otherwise d
  | .close d => BlockSteps.close d

/-- The steps of an operation come to what the operation gives, and where it fails, the blocks are
as they were. -/
theorem exec_steps (op : BlockOperation) (b : BlockStack) :
    op.steps.exec b = match op.apply b with
      | .ok after => (.ok (), after)
      | .error e => (.error e, b) := by
  obtain ⟨frames⟩ := b
  cases op with
  | enter condition d line => rfl
  | elseIf condition d =>
    cases frames with
    | nil => rfl
    | cons f below =>
      obtain ⟨selected, taken, enclosed, elseSeen, openedBy, openedAt⟩ := f
      cases elseSeen <;> rfl
  | otherwise d =>
    cases frames with
    | nil => rfl
    | cons f below =>
      obtain ⟨selected, taken, enclosed, elseSeen, openedBy, openedAt⟩ := f
      cases elseSeen <;> rfl
  | close d => cases frames <;> rfl

/-- The blocks that the steps of an operation leave, whether they succeed or not. -/
def perform (b : BlockStack) (op : BlockOperation) : BlockStack := (op.steps.exec b).2

/-- The blocks that operations leave, one after the other, when no block is open before them. -/
def performAll (ops : List BlockOperation) : BlockStack := ops.foldl perform .empty

end BlockOperation

/-- Asking whether a condition is needed writes nothing. -/
theorem exec_needsCondition (d : Directive) (b : BlockStack) :
    (BlockSteps.needsCondition d).exec b = (b.needsCondition d, b) := by
  obtain ⟨frames⟩ := b
  cases frames with
  | nil => rfl
  | cons f below =>
    obtain ⟨selected, taken, enclosed, elseSeen, openedBy, openedAt⟩ := f
    cases elseSeen <;> rfl

end SourcePreprocessor
