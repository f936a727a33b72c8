import SourcePreprocessor.Pass.Global
import SourcePreprocessor.Proofs.Pass.InPlace

/-!
# The global pass in place

The global pass gives the next state or fails (`scanDirective`). Here its directives are steps in
place on the open blocks, the variables of the run, the conditions found so far and the log.

> `outcome_scanSteps`: from every state, the steps of a directive come to the state that it gives,
> and where it fails, to the state from before it;
> `scanLines_cons`: so the pass over lines goes through the steps of its lines.
-/

namespace SourcePreprocessor

open LineSteps

namespace ScanInPlace

/-- The value of an expression. -/
def evaluate (here : Position) (e : Expression) : LineSteps Scan Value := do
  check ((e.eval ((← get).state.scope here).get?).mapError .expression)

/-- Steps on the open blocks of the pass. -/
def onBlocks {α : Type} (steps : BlockSteps α) : LineSteps Scan α :=
  LineSteps.onBlocks Scan.blocks (fun blocks s => { s with blocks }) steps

/-- Opens a block, asking for its condition where it can matter. -/
def openBlock (here : Position) (d : Directive) (argument : Text) : LineSteps Scan Unit := do
  if (← get).state.blocks.isActive then
    let e ← check (d.expressionArgument argument)
    let holds ← check ((e.condition ((← get).state.scope here).get?).mapError .expression)
    onBlocks (BlockSteps.enter (some holds) d here.line)
  else onBlocks (BlockSteps.enter none d here.line)

/-- Goes on to the branch without a condition, or closes the block. -/
def unconditional (operation : BlockOperation) (d : Directive) (argument : Text) :
    LineSteps Scan Unit := do
  check ((d.noArgument argument).mapError .structural)
  onBlocks operation.steps

/-- Defines a variable. -/
def define (here : Position) (d : Directive) (argument : Text) : LineSteps Scan Unit := do
  let (name, source) ← check ((d.assignmentArgument argument).mapError .structural)
  moveBy (columnOf (Text.trimStart argument) source - 1)
  let e ← check ((parse (Text.trimEnd source)).mapError .parse)
  let v ← evaluate here e
  let record : LogRecord :=
    ⟨.detail, here.string ++ ": global " ++ name.string ++ " = " ++ Text.string v.literal⟩
  change fun s => { s with log := s.log ++ [record] }
  change fun s => { s with globals := s.globals.set name v }

/-- Adds a condition under which the file is left out. -/
def exclude (here : Position) (d : Directive) (argument : Text) : LineSteps Scan Unit := do
  let e ← check (d.expressionArgument argument)
  change fun s => { s with exclusions := s.exclusions ++ [⟨e, here⟩] }

/-- The steps of a directive. -/
def scanSteps (here : Position) (d : Directive) (argument : Text) : LineSteps Scan Unit :=
  match d with
  | .globalIf => openBlock here d argument
  | .globalOtherwise => unconditional (.otherwise d) d argument
  | .globalEndIf => unconditional (.close d) d argument
  | .global => do
    if (← get).state.blocks.isActive then define here d argument else return ()
  | .excludeIf => do
    if (← get).state.blocks.isActive then exclude here d argument else return ()
  | _ => return ()

/-- The steps of a line. -/
def lineSteps (marker : Text) (here : Position) (content : Text) : LineSteps Scan Unit :=
  match lineKind marker content with
  | .directive d argument => do
    moveTo (argumentColumn content argument)
    scanSteps here d argument
  | _ => return ()

section Decisions

variable (report : Fault → Diagnostic) (here : Position) (d : Directive) (argument : Text)
  (w : Working Scan)

/-- The steps come to the next state, as it was decided. -/
def Decides (steps : LineSteps Scan Unit) (decision : Except Fault Scan) : Prop :=
  Realizes report (fun s => (.ok (), s)) steps w decision

theorem decides_operation (operation : BlockOperation) :
    Decides report w (onBlocks operation.steps) (atColumn w.column (Except.mapError .structural do
      return { w.state with blocks := ← operation.apply w.state.blocks })) := by
  have hblocks := realizes_onBlocks report Scan.blocks (fun blocks s => { s with blocks })
    (fun _ => rfl) operation w
  unfold Decides Realizes onBlocks
  rw [hblocks]
  cases operation.apply w.state.blocks <;> rfl

theorem decides_openBlock : Decides report w (openBlock here d argument)
    (atColumn w.column do return { w.state with blocks := ← w.state.openBlock here d argument }) := by
  unfold Decides Scan.openBlock
  refine .bind_get ?_
  by_cases hactive : w.state.blocks.isActive = true
  · rw [if_pos hactive, if_pos hactive]
    simp only [bind_assoc, pure_bind]
    rw [atColumn_bind]
    refine .bind_check rfl fun e _ => .bind_get ?_
    rw [atColumn_bind]
    refine .bind_check rfl fun holds _ => ?_
    exact decides_operation report w (.enter (some holds) d here.line)
  · rw [if_neg hactive, if_neg hactive]
    exact decides_operation report w (.enter none d here.line)

theorem decides_unconditional (operation : BlockOperation) :
    Decides report w (unconditional operation d argument)
      (atColumn w.column (Except.mapError .structural do
        d.noArgument argument
        return { w.state with blocks := ← operation.apply w.state.blocks })) := by
  unfold Decides unconditional
  cases d.noArgument argument with
  | error e => rfl
  | ok _ => exact decides_operation report w operation

theorem exec_evaluate (e : Expression) : (evaluate here e).exec w =
    (((e.eval (w.state.scope here).get?).mapError Cause.expression).mapError .unplaced, w) := rfl

theorem decides_define : Decides report w (define here d argument)
    (w.state.define here d argument w.column) := by
  refine .bind_check rfl fun (name, source) _ => .bind_modify rfl ?_
  dsimp only
  rw [← add_columnOf_sub, atColumn_bind]
  refine .bind_check rfl fun e _ => ?_
  rw [atColumn_bind]
  exact .bind_check (exec_evaluate here _ e) fun v _ => .ofCarry rfl rfl

theorem decides_exclude : Decides report w (exclude here d argument) (atColumn w.column do
    let e ← d.expressionArgument argument
    return { w.state with exclusions := w.state.exclusions ++ [⟨e, here⟩] }) := by
  unfold Decides
  rw [atColumn_bind]
  exact .bind_check rfl fun e _ => .ofCarry rfl rfl

/-- The steps of a directive come to the state that it gives. -/
theorem decides_scanSteps : Decides report w (scanSteps here d argument)
    (scanDirective w.state here d argument w.column) := by
  unfold scanSteps scanDirective
  cases d with
  | globalIf => exact decides_openBlock report here _ argument w
  | globalOtherwise => exact decides_unconditional report _ argument w (.otherwise .globalOtherwise)
  | globalEndIf => exact decides_unconditional report _ argument w (.close .globalEndIf)
  | global =>
    refine .bind_get ?_
    dsimp only
    by_cases hactive : w.state.blocks.isActive = true
    · rw [if_pos hactive, if_pos hactive]
      exact decides_define report here _ argument w
    · rw [if_neg hactive, if_neg hactive]
      exact .ofCarry rfl rfl
  | excludeIf =>
    refine .bind_get ?_
    dsimp only
    by_cases hactive : w.state.blocks.isActive = true
    · rw [if_pos hactive, if_pos hactive]
      exact decides_exclude report here _ argument w
    · rw [if_neg hactive, if_neg hactive]
      exact .ofCarry rfl rfl
  | _ => exact .ofCarry rfl rfl

theorem decides_lineSteps (marker content : Text) : Decides report w (lineSteps marker here content)
    (scanLine marker w.state here content) := by
  unfold lineSteps scanLine
  cases lineKind marker content with
  | directive d argument =>
    exact .bind_modify rfl (decides_scanSteps report here d argument
      { w with column := argumentColumn content argument })
  | _ => exact .ofCarry rfl rfl

end Decisions

/-- From every state and wherever the register is, a directive that succeeds leaves the state that it
gives, and one that fails the state from before it. -/
theorem outcome_scanSteps (report : Fault → Diagnostic) (here : Position) (d : Directive)
    (argument : Text) (w : Working Scan) :
    (scanSteps here d argument).outcome report w =
      match scanDirective w.state here d argument w.column with
      | .ok s => (.ok (), s)
      | .error fault => (.error (report fault), w.state) := by
  rw [decides_scanSteps report here d argument w]
  cases scanDirective w.state here d argument w.column <;> rfl

/-- The pass over lines goes through the steps of its lines, and goes on from the state that they
leave. -/
theorem scanLines_cons (marker : Text) (file : Path) (line : Nat) (content : Text)
    (contents : List Text) (w : Working Scan) :
    scanLines marker file line (content :: contents) w.state =
      match (lineSteps marker ⟨file, line⟩ content).outcome
        (fun fault => fault.diagnostic [] ⟨file, line⟩ content) w with
      | (.ok (), s) => scanLines marker file (line + 1) contents s
      | (.error d, s) => (.error d, s) := by
  rw [decides_lineSteps _ ⟨file, line⟩ w marker content, scanLines]
  cases scanLine marker w.state ⟨file, line⟩ content <;> rfl

end ScanInPlace

end SourcePreprocessor
