import SourcePreprocessor.Diagnostic

/-!
# Conditional blocks

Nested conditionals are kept as a stack of frames, the innermost first. A frame knows whether the
branch being read is the selected one, whether some branch was selected, whether everything around
the block is active, and whether the block had its `else`. Both passes use such a stack with their
own directives.

The conditions of a block are asked for only while they can still select a branch: not inside text
that is left out, and not after a branch was taken.

An operation gives the next stack or an error, and whoever asked for it keeps the old stack after an
error. Operations that work on a stack in place come to the same (`Proofs.Block.Operation`).
-/

namespace SourcePreprocessor

/-- An open conditional block. -/
structure Frame where
  /-- The branch being read was selected. -/
  selected : Bool
  /-- Some branch of the block was selected. -/
  taken : Bool
  /-- Every block around this one is active. -/
  enclosed : Bool
  /-- The block had its `else`. -/
  elseSeen : Bool
  openedBy : Directive
  openedAt : Nat
  deriving DecidableEq, Repr

/-- Whether the text of the branch being read is kept. -/
def Frame.isActive (f : Frame) : Bool := f.enclosed && f.selected

/-- The open blocks, the innermost first. -/
structure BlockStack where
  frames : List Frame
  deriving DecidableEq, Repr

namespace BlockStack

/-- No open blocks. -/
def empty : BlockStack := ⟨[]⟩

/-- Whether text at this place is kept; outside of all blocks it is. -/
def isActive (b : BlockStack) : Bool :=
  match b.frames with
  | [] => true
  | frame :: _ => frame.isActive

/-- The number of open blocks. -/
def depth (b : BlockStack) : Nat := b.frames.length

/-- Opens a block. The condition is absent where it was not asked for. -/
def enter (b : BlockStack) (condition : Option Bool) (openedBy : Directive) (openedAt : Nat) :
    BlockStack :=
  let selected := b.isActive && condition.getD false
  ⟨{ selected, taken := selected, enclosed := b.isActive, elseSeen := false, openedBy, openedAt } ::
    b.frames⟩

/-- The innermost block and the others, for a directive that needs an open block. -/
def innermost (b : BlockStack) (d : Directive) : Except StructureError (Frame × List Frame) :=
  match b.frames with
  | [] => .error (.withoutIf d)
  | frame :: others => .ok (frame, others)

/-- The innermost block and the others, for a directive that starts another branch of it. -/
def branching (b : BlockStack) (d : Directive) : Except StructureError (Frame × List Frame) := do
  let (frame, others) ← b.innermost d
  if frame.elseSeen then .error (.afterElse d) else .ok (frame, others)

/-- Whether the condition of a further branch can select it. -/
def needsCondition (b : BlockStack) (d : Directive) : Except StructureError Bool := do
  let (frame, _) ← b.branching d
  return frame.enclosed && !frame.taken

/-- Goes on to a further branch with a condition, which is absent where it was not asked for. -/
def elseIf (b : BlockStack) (condition : Option Bool) (d : Directive) :
    Except StructureError BlockStack := do
  let (frame, others) ← b.branching d
  let selected := frame.enclosed && !frame.taken && condition.getD false
  return ⟨{ frame with selected, taken := frame.taken || selected } :: others⟩

/-- Goes on to the branch without a condition. -/
def otherwise (b : BlockStack) (d : Directive) : Except StructureError BlockStack := do
  let (frame, others) ← b.branching d
  return ⟨{ frame with
    selected := frame.enclosed && !frame.taken, taken := true, elseSeen := true } :: others⟩

/-- Closes the innermost block. -/
def close (b : BlockStack) (d : Directive) : Except StructureError BlockStack := do
  let (_, others) ← b.innermost d
  return ⟨others⟩

/-- The innermost block, when more than the given number of blocks are open. -/
def unclosed? (b : BlockStack) (depth : Nat) : Option Frame :=
  if depth < b.depth then b.frames.head? else none

/-- Checks that no more than the given number of blocks are open. -/
def ensureDepth (b : BlockStack) (depth : Nat) : Except StructureError Unit :=
  match b.unclosed? depth with
  | some frame => .error (.unclosedBlock frame.openedBy frame.openedAt)
  | none => .ok ()

end BlockStack

end SourcePreprocessor
