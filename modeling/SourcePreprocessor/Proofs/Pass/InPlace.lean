import SourcePreprocessor.Block
import SourcePreprocessor.Directive.Line
import SourcePreprocessor.Proofs.Block.Operation

/-!
# Lines in place

Both passes decide what a line asks for before they change anything. The same line can be gone
through in place: its argument is checked, expressions are read and evaluated, and the state of the
pass is written where this happens, beside a register for the column to which a failure would belong
(`Working`). A failure in the middle keeps what was written before it.

Whether such steps and a decision come to the same is a relation between them (`Realizes`). It is
shown along the steps, from the first one on:

> `Realizes.bind_check`: a step that looks something up and changes nothing is a step of the decision,
> whose failure belongs to the column of the register;
> `Realizes.bind_modify`: a step that only sets the register leaves the decision as it is.

When all steps are used up, the state that they leave has to be the one that the decision is carried
out with. That is where steps would be told apart that write too early: their failures would leave
another state than the one from before the line.
-/

namespace SourcePreprocessor

/-- What the steps of a line work on: the state of the pass, and the column to which a failure would
belong. -/
structure Working (σ : Type) where
  state : σ
  column : Nat

/-- A failure in the steps of a line. It has its place already when it comes from an included file. -/
inductive Failure where
  | placed (d : Diagnostic)
  | unplaced (cause : Cause)

/-- The steps of a line on the state of a pass. -/
abbrev LineSteps (σ : Type) := InPlace (Working σ) Failure

namespace LineSteps

variable {σ α β γ : Type}

/-- A result that is found without changing anything. -/
def check (result : Except Cause α) : LineSteps σ α :=
  InPlace.ofExcept (result.mapError .unplaced)

/-- Stops the line. -/
def fail (cause : Cause) : LineSteps σ α := throw (.unplaced cause)

/-- Sets the column to which further failures belong. -/
def moveTo (column : Nat) : LineSteps σ Unit := modify fun w => { w with column }

/-- Moves the column to which further failures belong to the right. -/
def moveBy (columns : Nat) : LineSteps σ Unit :=
  modify fun w => { w with column := w.column + columns }

/-- Writes the state of the pass. -/
def change (f : σ → σ) : LineSteps σ Unit := modify fun w => { w with state := f w.state }

/-- Steps on the open blocks of a state. -/
def onBlocks (blocks : σ → BlockStack) (replace : BlockStack → σ → σ) (steps : BlockSteps α) :
    LineSteps σ α :=
  InPlace.onPart (fun w => blocks w.state) (fun b w => { w with state := replace b w.state })
    (fun e => .unplaced (.structural e)) steps

/-- What a step leaves that only moves the register: the given column behind it, or that of its
failure. -/
def moved (w : Working σ) (column : Nat) :
    Except Fault α → Except Failure α × Working σ
  | .ok a => (.ok a, { w with column })
  | .error fault => (.error (.unplaced fault.cause), { w with column := fault.column })

/-- What the steps of a line come to for the pass: their failure gets its place, and the register is
of no further use. -/
def outcome (report : Fault → Diagnostic) (steps : LineSteps σ α) (w : Working σ) :
    Except Diagnostic α × σ :=
  match steps.exec w with
  | (.ok a, w) => (.ok a, w.state)
  | (.error (.placed d), w) => (.error d, w.state)
  | (.error (.unplaced cause), w) => (.error (report ⟨cause, w.column⟩), w.state)

/-- Steps that fail come to a failure, with the state that they leave. -/
theorem exists_outcome_of_error {steps : LineSteps σ α} {w after : Working σ} {e : Failure}
    (h : steps.exec w = (.error e, after)) (report : Fault → Diagnostic) :
    ∃ d, steps.outcome report w = (.error d, after.state) := by
  unfold outcome
  rw [h]
  cases e with
  | placed d => exact ⟨d, rfl⟩
  | unplaced cause => exact ⟨report ⟨cause, after.column⟩, rfl⟩

/-- What a decision comes to for the pass: a fault changes nothing, and what else was decided is
carried out. -/
def settle (report : Fault → Diagnostic) (carry : β → Except Diagnostic α × σ) (s : σ) :
    Except Fault β → Except Diagnostic α × σ
  | .ok b => carry b
  | .error fault => (.error (report fault), s)

/-- With this state and this register, the steps come to what the decision comes to. -/
def Realizes (report : Fault → Diagnostic) (carry : β → Except Diagnostic α × σ)
    (steps : LineSteps σ α) (w : Working σ) (decision : Except Fault β) : Prop :=
  steps.outcome report w = settle report carry w.state decision

variable {report : Fault → Diagnostic} {carry : β → Except Diagnostic α × σ} {w : Working σ}

namespace Realizes

theorem ofCarry {steps : LineSteps σ α} {b : β} {a : α} {w' : Working σ}
    (hsteps : steps.exec w = (.ok a, w')) (h : carry b = (.ok a, w'.state)) :
    Realizes report carry steps w (.ok b) := by
  show steps.outcome report w = carry b
  unfold outcome
  rw [hsteps, h]

theorem fail (cause : Cause) :
    Realizes report carry (LineSteps.fail cause) w (.error ⟨cause, w.column⟩) := rfl

/-- A step that changes nothing is a step of the decision, and its failure belongs to the column of
the register. -/
theorem bind_check {step : LineSteps σ γ} {next : γ → LineSteps σ α} {result : Except Cause γ}
    {later : γ → Except Fault β} (hstep : step.exec w = (result.mapError .unplaced, w))
    (h : ∀ c, result = .ok c → Realizes report carry (next c) w (later c)) :
    Realizes report carry (step >>= next) w (atColumn w.column result >>= later) := by
  cases result with
  | ok c =>
    show (step >>= next).outcome report w = settle report carry w.state (later c)
    unfold outcome
    rw [InPlace.exec_bind_of_ok hstep]
    exact h c rfl
  | error cause =>
    show (step >>= next).outcome report w = _
    unfold outcome
    rw [InPlace.exec_bind_of_error hstep]
    rfl

/-- A step that moves the register as it goes along is a step of the decision, whose failures say
where the register has come to. -/
theorem bind_moving {step : LineSteps σ γ} {next : γ → LineSteps σ α} {result : Except Fault γ}
    {later : γ → Except Fault β} {column : Nat}
    (hstep : step.exec w = moved w column result)
    (h : ∀ c, Realizes report carry (next c) { w with column } (later c)) :
    Realizes report carry (step >>= next) w (result >>= later) := by
  cases result with
  | ok c =>
    show (step >>= next).outcome report w = settle report carry w.state (later c)
    unfold outcome
    rw [InPlace.exec_bind_of_ok hstep]
    exact h c
  | error fault =>
    show (step >>= next).outcome report w = _
    unfold outcome
    rw [InPlace.exec_bind_of_error hstep]
    rfl

/-- A step that writes the register alone leaves the decision as it is. -/
theorem bind_modify {f : Working σ → Working σ} {next : Unit → LineSteps σ α}
    {decision : Except Fault β} (hstate : (f w).state = w.state)
    (h : Realizes report carry (next ()) (f w) decision) :
    Realizes report carry (modify f >>= next) w decision := by
  have hbind : (modify f >>= next).outcome report w = (next ()).outcome report (f w) := by
    unfold outcome
    rw [InPlace.exec_bind_of_ok (InPlace.exec_modify f w)]
  unfold Realizes at h ⊢
  rw [hbind, h, hstate]

theorem bind_get {next : Working σ → LineSteps σ α} {decision : Except Fault β}
    (h : Realizes report carry (next w) w decision) :
    Realizes report carry (get >>= next) w decision := h

/-- What the steps give, and what is decided, can both be put in other words. -/
theorem map {α' β' : Type} {steps : LineSteps σ α} {decision : Except Fault β} {f : α → α'}
    {g : β → β'} {carry' : β' → Except Diagnostic α' × σ} (h : Realizes report carry steps w decision)
    (hcarry : ∀ b, carry' (g b) = ((carry b).1.map f, (carry b).2)) :
    Realizes report carry' (steps >>= fun a => pure (f a)) w (decision.map g) := by
  have hmap : (steps >>= fun a => pure (f a)).outcome report w =
      ((steps.outcome report w).1.map f, (steps.outcome report w).2) := by
    unfold outcome
    rw [InPlace.exec_bind]
    match steps.exec w with
    | (.ok a, w') => rfl
    | (.error (.placed d), w') => rfl
    | (.error (.unplaced cause), w') => rfl
  unfold Realizes at h ⊢
  rw [hmap, h]
  cases decision with
  | ok b => exact (hcarry b).symm
  | error fault => rfl

end Realizes

/-- An operation on the open blocks is carried out by putting its blocks in their place. -/
theorem realizes_onBlocks (report : Fault → Diagnostic) (blocks : σ → BlockStack)
    (replace : BlockStack → σ → σ) (hreplace : ∀ s, replace (blocks s) s = s) (op : BlockOperation)
    (w : Working σ) :
    Realizes report (fun b => (.ok (), replace b w.state)) (onBlocks blocks replace op.steps) w
      (atColumn w.column ((op.apply (blocks w.state)).mapError .structural)) := by
  have hexec : (onBlocks blocks replace op.steps).exec w =
      ((op.steps.exec (blocks w.state)).1.mapError fun e => .unplaced (.structural e),
        { w with state := replace (op.steps.exec (blocks w.state)).2 w.state }) := rfl
  unfold Realizes outcome
  rw [hexec, op.exec_steps]
  cases op.apply (blocks w.state) with
  | ok b => rfl
  | error e =>
    show (_, replace (blocks w.state) w.state) = _
    rw [hreplace]
    rfl

/-- Whether the condition of a further branch is needed is looked up and changes nothing. -/
theorem exec_onBlocks_needsCondition (blocks : σ → BlockStack) (replace : BlockStack → σ → σ)
    (hreplace : ∀ s, replace (blocks s) s = s) (d : Directive) (w : Working σ) :
    (onBlocks blocks replace (BlockSteps.needsCondition d)).exec w =
      ((((blocks w.state).needsCondition d).mapError Cause.structural).mapError .unplaced, w) := by
  show ((((BlockSteps.needsCondition d).exec (blocks w.state)).1.mapError _),
    { w with state := replace ((BlockSteps.needsCondition d).exec (blocks w.state)).2 w.state }) = _
  rw [exec_needsCondition, hreplace]
  cases (blocks w.state).needsCondition d <;> rfl

end LineSteps

/-- The first column of a content is column one. -/
theorem add_columnOf_sub (column : Nat) (content rest : Text) :
    column + (columnOf content rest - 1) = column + columnOf content rest - 1 := by
  unfold columnOf
  omega

/-- Steps that belong to one column are each at that column. -/
theorem atColumn_bind {α β : Type} (column : Nat) (x : Except Cause α) (f : α → Except Cause β) :
    atColumn column (x >>= f) = atColumn column x >>= fun a => atColumn column (f a) := by
  cases x <;> rfl

end SourcePreprocessor
