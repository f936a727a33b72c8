import SourcePreprocessor.Proofs.Pass.InPlace
import SourcePreprocessor.Proofs.Pass.Step

/-!
# The line pass in place

The line pass decides what a line asks for (`lineEffect`) and carries it out (`processLine`). Here is
the same pass as steps in place (`lineSteps`): every directive checks its argument, reads and
evaluates its expressions and writes the open blocks, the section that receives lines, the variables,
the output, the log and the actions, in the order in which it comes to them. The register for the
column of a failure is set where a line begins, where its argument begins, and at every expression.

> `outcome_lineSteps`: from every state, the steps of a line come to what the pass makes of it, with
> the same result and the same state.

There is a lemma for every directive, and each goes along the steps of that directive.
-/

namespace SourcePreprocessor

open LineSteps

namespace LineInPlace

/-! ## Conditions and values -/

/-- The value of an expression. -/
def evaluate (here : Position) (e : Expression) : LineSteps Machine Value := do
  check ((e.eval ((← get).state.scope here).get?).mapError .expression)

/-- The value of the expression that a text holds. -/
def value (here : Position) (source : Text) : LineSteps Machine Value := do
  let e ← check ((parse source).mapError .parse)
  evaluate here e

/-- The values of expressions, from left to right. -/
def values (here : Position) : List Expression → LineSteps Machine (List Value)
  | [] => return []
  | e :: es => do
    let v ← evaluate here e
    let vs ← values here es
    return v :: vs

/-- Whether the condition of a directive holds. -/
def condition (here : Position) (d : Directive) (argument : Text) : LineSteps Machine Bool := do
  check (conditionHolds ((← get).state.scope here) d argument)

/-- The condition of a directive, when it is asked for. -/
def conditionWhen (wanted : Bool) (here : Position) (d : Directive) (argument : Text) :
    LineSteps Machine (Option Bool) := do
  if wanted then return some (← condition here d argument) else return none

section Values

variable (here : Position) (w : Working Machine)

theorem exec_evaluate (e : Expression) : (evaluate here e).exec w =
    (((e.eval (w.state.scope here).get?).mapError Cause.expression).mapError .unplaced, w) := rfl

theorem exec_value (source : Text) : (value here source).exec w =
    ((lineValue (w.state.scope here) source).mapError .unplaced, w) := by
  unfold value lineValue
  rw [InPlace.exec_bind]
  cases parse source <;> rfl

theorem exec_values (es : List Expression) : (values here es).exec w =
    ((lineValues (w.state.scope here) es).mapError .unplaced, w) := by
  induction es with
  | nil => rfl
  | cons e es ih =>
    unfold values lineValues
    rw [InPlace.exec_bind, exec_evaluate]
    cases e.eval (w.state.scope here).get? with
    | error error => rfl
    | ok v =>
      show (values here es >>= _).exec w = _
      rw [InPlace.exec_bind, ih]
      show _ = ((lineValues (w.state.scope here) es >>= fun vs => .ok (v :: vs)).mapError _, w)
      cases lineValues (w.state.scope here) es <;> rfl

theorem exec_condition (d : Directive) (argument : Text) : (condition here d argument).exec w =
    ((conditionHolds (w.state.scope here) d argument).mapError .unplaced, w) := rfl

theorem exec_conditionWhen (wanted : Bool) (d : Directive) (argument : Text) :
    (conditionWhen wanted here d argument).exec w =
      ((conditionIf wanted (w.state.scope here) d argument).mapError .unplaced, w) := by
  cases wanted with
  | false => rfl
  | true =>
    show (condition here d argument >>= fun holds => pure (some holds)).exec w =
      (((conditionHolds (w.state.scope here) d argument).map some).mapError .unplaced, w)
    rw [InPlace.exec_bind, exec_condition]
    cases conditionHolds (w.state.scope here) d argument <;> rfl

end Values

/-! ## Conditional directives -/

/-- Steps on the open blocks of the pass. -/
def onBlocks {α : Type} (steps : BlockSteps α) : LineSteps Machine α :=
  LineSteps.onBlocks (fun m => m.state.blocks) (fun blocks m => m.withBlocks blocks) steps

/-- Goes on to a further branch with a condition. -/
def elseIf (here : Position) (d : Directive) (argument : Text) : LineSteps Machine Unit := do
  let wanted ← onBlocks (BlockSteps.needsCondition d)
  let holds ← conditionWhen wanted here d argument
  onBlocks (BlockSteps.elseIf holds d)

/-- Goes on to the branch without a condition, or closes the block. -/
def unconditional (operation : BlockOperation) (d : Directive) (argument : Text) :
    LineSteps Machine Unit := do
  check ((d.noArgument argument).mapError .structural)
  onBlocks operation.steps

/-- Opens a block. -/
def openBlock (here : Position) (d : Directive) (argument : Text) : LineSteps Machine Unit := do
  let holds ← conditionWhen (← get).state.state.blocks.isActive here d argument
  onBlocks (BlockSteps.enter holds d here.line)

/-- A conditional directive. -/
def conditional (here : Position) (d : Directive) (argument : Text) : LineSteps Machine Unit :=
  match d with
  | .elseIf => elseIf here d argument
  | .otherwise => unconditional (.otherwise d) d argument
  | .endIf => unconditional (.close d) d argument
  | _ => openBlock here d argument

section Conditionals

variable (report : Fault → Diagnostic) (here : Position) (d : Directive) (argument : Text)
  (w : Working Machine)

/-- The steps come to a decision about the open blocks. -/
def Reblocks (steps : LineSteps Machine Unit) (decision : Except Cause BlockStack) : Prop :=
  Realizes report (fun b => (.ok (), w.state.withBlocks b)) steps w (atColumn w.column decision)

theorem reblocks_operation (operation : BlockOperation) :
    Reblocks report w (onBlocks operation.steps)
      ((operation.apply w.state.state.blocks).mapError .structural) :=
  realizes_onBlocks report _ _ (fun _ => rfl) operation w

theorem reblocks_elseIf : Reblocks report w (elseIf here d argument) (do
    let wanted ← (w.state.state.blocks.needsCondition d).mapError .structural
    let holds ← conditionIf wanted (w.state.scope here) d argument
    (w.state.state.blocks.elseIf holds d).mapError .structural) := by
  unfold Reblocks
  rw [atColumn_bind]
  refine .bind_check (exec_onBlocks_needsCondition _ _ (fun _ => rfl) d w) fun wanted _ => ?_
  rw [atColumn_bind]
  refine .bind_check (exec_conditionWhen here w wanted d argument) fun holds _ => ?_
  exact reblocks_operation report w (.elseIf holds d)

theorem reblocks_unconditional (operation : BlockOperation) :
    Reblocks report w (unconditional operation d argument) (Except.mapError .structural do
      d.noArgument argument
      operation.apply w.state.state.blocks) := by
  unfold Reblocks unconditional
  cases d.noArgument argument with
  | error e => rfl
  | ok _ => exact reblocks_operation report w operation

theorem reblocks_openBlock : Reblocks report w (openBlock here d argument) (do
    let holds ← conditionIf w.state.state.blocks.isActive (w.state.scope here) d argument
    return w.state.state.blocks.enter holds d here.line) := by
  unfold Reblocks
  rw [atColumn_bind]
  refine .bind_get (.bind_check (exec_conditionWhen here w _ d argument) fun holds _ => ?_)
  exact reblocks_operation report w (.enter holds d here.line)

/-- A conditional directive comes to the decision about the open blocks. -/
theorem reblocks_conditional : Reblocks report w (conditional here d argument)
    (conditionalBlocks (w.state.scope here) w.state.state.blocks d argument) := by
  cases d with
  | elseIf => exact reblocks_elseIf report here .elseIf argument w
  | otherwise => exact reblocks_unconditional report .otherwise argument w (.otherwise .otherwise)
  | endIf => exact reblocks_unconditional report .endIf argument w (.close .endIf)
  | _ => exact reblocks_openBlock report here _ argument w

end Conditionals

/-! ## Insertions -/

/-- The text that pieces become. Every insertion moves the register to its expression. -/
def insertPieces (here : Position) : List Piece → LineSteps Machine Text
  | [] => return []
  | .plain c :: rest => return c :: (← insertPieces here rest)
  | .insertion column body :: rest => do
    moveTo (column + Text.leadingBlanks body)
    let v ← value here (Text.trim body)
    let others ← insertPieces here rest
    return v.display ++ others

/-- A text with its insertions replaced, which starts the given number of characters behind the
register. -/
def insert (here : Position) (offset : Nat) (t : Text) : LineSteps Machine Text := do
  insertPieces here (pieces ((← get).column + offset) t)

/-- The output of a line of text. -/
def render (here : Position) (content : Text) : LineSteps Machine Text := do
  let indent := content.takeWhile Text.isBlank
  match Text.stripStart? rawMark (Text.trimStart content) with
  | some rest => return indent ++ rest
  | none =>
    match Text.stripStart? uncommentMark (Text.trimStart content) with
    | some rest => return indent ++ (← insert here (columnOf content rest - 1) rest)
    | none => insert here 0 content

/-- The register behind pieces: it stays at the last insertion. -/
def columnAfter (column : Nat) (ps : List Piece) : Nat :=
  (ps.filterMap Piece.expressionColumn?).getLastD column

theorem columnAfter_insertion (before column : Nat) (body : Text) (rest : List Piece) :
    columnAfter before (.insertion column body :: rest) =
      columnAfter (column + Text.leadingBlanks body) rest := by
  unfold columnAfter
  rw [List.filterMap_cons_some (by rfl), List.getLastD_cons]

/-- An insertion becomes the value of its expression. -/
theorem render_insertion (scope : Scope) (column : Nat) (body : Text) :
    (Piece.insertion column body).render scope =
      (atColumn (column + Text.leadingBlanks body) (lineValue scope (Text.trim body))).map
        Value.display := by
  unfold Piece.render lineValue
  dsimp only
  cases parse (Text.trim body) with
  | error e => rfl
  | ok e =>
    show atColumn _ ((e.eval scope.get?).mapError _ >>= _) =
      (atColumn _ ((e.eval scope.get?).mapError _)).map _
    cases e.eval scope.get? <;> rfl

/-- The pieces become what is decided, and the register stays at the last insertion or at the one
that fails. -/
theorem exec_insertPieces (here : Position) (ps : List Piece) (w : Working Machine) :
    (insertPieces here ps).exec w =
      moved w (columnAfter w.column ps) (renderPieces (w.state.scope here) ps) := by
  induction ps generalizing w with
  | nil => rfl
  | cons piece rest ih =>
    cases piece with
    | plain c =>
      show (insertPieces here rest >>= fun others => pure (c :: others)).exec w = _
      rw [InPlace.exec_bind, ih]
      show _ = moved w _ (renderPieces (w.state.scope here) rest >>= fun others =>
        .ok ([c] ++ others))
      cases renderPieces (w.state.scope here) rest <;> rfl
    | insertion column body =>
      show (value here (Text.trim body) >>= fun v => insertPieces here rest >>= fun others =>
        pure (v.display ++ others)).exec { w with column := column + Text.leadingBlanks body } = _
      rw [InPlace.exec_bind, exec_value, renderPieces, render_insertion, columnAfter_insertion]
      cases lineValue (w.state.scope here) (Text.trim body) with
      | error cause => rfl
      | ok v =>
        show (insertPieces here rest >>= _).exec _ = moved w _
          (renderPieces (w.state.scope here) rest >>= fun others => .ok (v.display ++ others))
        rw [InPlace.exec_bind, ih]
        cases renderPieces (w.state.scope here) rest <;> rfl

theorem exec_insert (here : Position) (offset : Nat) (t : Text) (w : Working Machine) :
    (insert here offset t).exec w = moved w (columnAfter w.column (pieces (w.column + offset) t))
      (insertValues (w.state.scope here) (w.column + offset) t) :=
  exec_insertPieces here (pieces (w.column + offset) t) w

/-- A line of text is read from its first column on. -/
theorem exec_render (here : Position) (content : Text) (w : Working Machine) (hw : w.column = 1) :
    ∃ column, (render here content).exec w =
      moved w column (renderLine (w.state.scope here) content) := by
  unfold render renderLine
  dsimp only
  cases Text.stripStart? rawMark (Text.trimStart content) with
  | some rest => exact ⟨w.column, rfl⟩
  | none =>
    cases Text.stripStart? uncommentMark (Text.trimStart content) with
    | some rest =>
      have hcolumn : w.column + (columnOf content rest - 1) = columnOf content rest := by
        rw [hw]
        unfold columnOf
        omega
      refine ⟨columnAfter w.column (pieces (columnOf content rest) rest), ?_⟩
      dsimp only
      rw [InPlace.exec_bind, exec_insert, hcolumn]
      cases insertValues (w.state.scope here) (columnOf content rest) rest <;> rfl
    | none =>
      refine ⟨columnAfter w.column (pieces 1 content), (exec_insert here 0 content w).trans ?_⟩
      rw [hw]

/-! ## Other directives -/

/-- Defines a variable of the file. -/
def bindLocal (here : Position) (d : Directive) (argument : Text) : LineSteps Machine Flow := do
  let (name, source) ← check ((d.assignmentArgument argument).mapError .structural)
  moveBy (columnOf (Text.trimStart argument) source - 1)
  let v ← value here (Text.trimEnd source)
  change fun m => { m with state := { m.state with locals := m.state.locals.set name v } }
  return .next

/-- Defines a variable of the run, whose name and value fall apart in the whole of an argument. It is
true when no expression is given. -/
def bindGlobal (here : Position) (d : Directive) (whole name rest : Text) :
    LineSteps Machine Flow := do
  let name ← check ((d.variableArgument name).mapError .structural)
  let source := Text.trimStart rest
  if source.isEmpty then
    change fun m => { m with globals := m.globals.set name (.bool true) }
    return .next
  else
    moveBy (columnOf whole source - 1)
    let v ← value here source
    change fun m => { m with globals := m.globals.set name v }
    return .next

/-- Defines a variable of the run. -/
def define (here : Position) (d : Directive) (argument : Text) : LineSteps Machine Flow :=
  let whole := Text.trim argument
  let (name, rest) := match Text.cutAt? Text.isBlank whole with
    | some (name, _, rest) => (name, rest)
    | none => (whole, [])
  bindGlobal here d whole name rest

/-- Removes a variable of the file, and then one of the run. -/
def undefine (d : Directive) (argument : Text) : LineSteps Machine Flow := do
  let name ← check ((d.variableArgument argument).mapError .structural)
  change fun m => { m with state := { m.state with locals := m.state.locals.erase name } }
  change fun m => { m with globals := m.globals.erase name }
  return .next

/-- Sends further lines to a section, or back to the main one. -/
def redirect (d : Directive) (target : Section) (argument : Text) : LineSteps Machine Flow := do
  let on ← check ((d.switchArgument argument).mapError .structural)
  change fun m => { m with state := { m.state with target := if on then target else .main } }
  return .next

/-- Hands values to the extension, when there is one, and stops when it refuses them. -/
def act (extension : Option Extension) (here : Position) (d : Directive) (argument : Text) :
    LineSteps Machine Flow := do
  match extension with
  | none =>
    change (·.note .detail
      (here.string ++ ": " ++ Text.string "action ignored, no extension registered".toList))
    return .next
  | some extension =>
    let es ← check (d.expressionsArgument argument)
    let arguments ← values here es
    let earlier := (← get).state.actions
    change fun m => { m with actions := m.actions ++ [⟨here, arguments⟩] }
    if extension.accepts earlier ⟨here, arguments⟩ then return .next
    else fail (.evaluation (.extensionFailed arguments))

/-- Logs a message. -/
def logMessage (level : LogLevel) (here : Position) (argument : Text) :
    LineSteps Machine Flow := do
  let t ← insert here 0 (Text.trim argument)
  change (·.note level (here.string ++ ": " ++ t.string))
  return .next

/-- Stops with a message. -/
def stopWith (here : Position) (argument : Text) : LineSteps Machine Flow := do
  let message ← insert here 0 (Text.trim argument)
  fail (.evaluation (.userError message))

/-- Stops the file. -/
def exit (d : Directive) (argument : Text) : LineSteps Machine Flow := do
  check ((d.noArgument argument).mapError .structural)
  return .stop

/-- Stops the file when the condition holds. -/
def exitIf (here : Position) (d : Directive) (argument : Text) : LineSteps Machine Flow := do
  return if ← condition here d argument then .stop else .next

/-- Processes another file in place. Its failures have their places. -/
def includeFile (enter : List Position → Path → Text → Machine → Processed) (files : FileTree)
    (chain : List Position) (here : Position) (d : Directive) (argument : Text) :
    LineSteps Machine Flow := do
  let e ← check (d.expressionArgument argument)
  let v ← evaluate here e
  let name ← check (v.toText.mapError .expression)
  let target := includeTarget here.file name
  if isCycle files chain here.file target then fail (.structural (.includeCycle target))
  else
    let t ← check ((files.readText target).mapError fun fault => .file (.plain fault))
    change (·.note .detail (here.string ++ ": including " ++ target.string))
    InPlace.onPart Working.state (fun m w => { w with state := m }) .placed
      (ExceptT.mk (enter (chain ++ [here]) target t))

/-- A directive outside of conditionals. -/
def execute (enter : List Position → Path → Text → Machine → Processed) (env : Environment)
    (chain : List Position) (here : Position) (d : Directive) (argument : Text) :
    LineSteps Machine Flow :=
  match d with
  | .localVariable => bindLocal here d argument
  | .define => define here d argument
  | .undefine => undefine d argument
  | .opening => redirect d .opening argument
  | .closing => redirect d .closing argument
  | .action => act env.extension here d argument
  | .echo => logMessage .information here argument
  | .warning => logMessage .warning here argument
  | .error => stopWith here argument
  | .exit => exit d argument
  | .exitIf => exitIf here d argument
  | .includeFile => includeFile enter env.files chain here d argument
  | _ => return .next

/-- The steps of a line. -/
def lineSteps (enter : List Position → Path → Text → Machine → Processed) (env : Environment)
    (chain : List Position) (here : Position) (content : Text) : LineSteps Machine Flow := do
  moveTo 1
  match lineKind env.marker content with
  | .plain =>
    if (← get).state.state.blocks.isActive then
      let line ← render here content
      change fun m => { m with state := m.state.emit line }
      return .next
    else return .next
  | .unknown rest => fail (.structural (.unknownDirective (Text.trimEnd rest)))
  | .directive d argument =>
    moveTo (argumentColumn content argument)
    if d.pass = .global then return .next
    else if d.isConditional then
      conditional here d argument
      return .next
    else if (← get).state.state.blocks.isActive then execute enter env chain here d argument
    else return .next

/-! ## The steps and the decision -/

/-- Carries out what was decided about a line. -/
def carryOut (enter : List Position → Path → Text → Machine → Processed) (chain : List Position)
    (here : Position) (content : Text) (m : Machine) : Effect → Processed
  | .exit => (.ok .stop, m)
  | .enter file t =>
    enter (chain ++ [here]) file t
      (m.note .detail (here.string ++ ": including " ++ file.string))
  | .act extension arguments column =>
    let action : Action := ⟨here, arguments⟩
    let after := { m with actions := m.actions ++ [action] }
    if extension.accepts m.actions action then (.ok .next, after)
    else
      let fault : Fault := ⟨.evaluation (.extensionFailed arguments), column⟩
      (.error (fault.diagnostic chain here content), after)
  | effect => (.ok .next, m.perform here effect)

/-- What an included file comes to, its steps come to. -/
theorem outcome_entering (report : Fault → Diagnostic) (record : Machine → Machine)
    (process : Machine → Processed) (w : Working Machine) :
    (change record >>= fun _ => InPlace.onPart Working.state (fun m w => { w with state := m })
      Failure.placed (ExceptT.mk process) : LineSteps Machine Flow).outcome report w =
      process (record w.state) := by
  have hexec : (change record >>= fun _ => InPlace.onPart Working.state
      (fun m w => { w with state := m }) Failure.placed (ExceptT.mk process) :
        LineSteps Machine Flow).exec w =
      ((process (record w.state)).1.mapError .placed,
        { w with state := (process (record w.state)).2 }) := rfl
  unfold outcome
  rw [hexec]
  obtain ⟨_ | _, m⟩ := process (record w.state) <;> rfl

section Decisions

variable (enter : List Position → Path → Text → Machine → Processed) (env : Environment)
  (chain : List Position) (here : Position) (content : Text)

/-- A line is decided about, and then that is carried out. -/
theorem processLine_eq_settle (m : Machine) :
    processLine enter env chain here content m =
      settle (fun fault => fault.diagnostic chain here content)
        (carryOut enter chain here content m) m (lineEffect env chain here m content) := by
  unfold processLine
  cases lineEffect env chain here m content with
  | error fault => rfl
  | ok effect => cases effect <;> rfl

/-- The steps come to what was decided about the line. -/
def Decides (steps : LineSteps Machine Flow) (w : Working Machine)
    (decision : Except Fault Effect) : Prop :=
  Realizes (fun fault => fault.diagnostic chain here content)
    (carryOut enter chain here content w.state) steps w decision

variable (d : Directive) (argument : Text) (w : Working Machine)

theorem decides_bindLocal : Decides enter chain here content (bindLocal here d argument) w
    (localEffect (w.state.scope here) d argument w.column) := by
  refine .bind_check rfl fun (name, source) _ => .bind_modify rfl ?_
  dsimp only
  rw [← add_columnOf_sub]
  refine .bind_check (exec_value here _ _) fun v _ => ?_
  exact .ofCarry rfl rfl

theorem decides_bindGlobal (whole name rest : Text) :
    Decides enter chain here content (bindGlobal here d whole name rest) w (do
      let name ← atColumn w.column ((d.variableArgument name).mapError .structural)
      let source := Text.trimStart rest
      if source.isEmpty then return .bindGlobal name (.bool true)
      else
        let v ← atColumn (w.column + columnOf whole source - 1)
          (lineValue (w.state.scope here) source)
        return .bindGlobal name v) := by
  refine .bind_check rfl fun name _ => ?_
  dsimp only
  by_cases hempty : (Text.trimStart rest).isEmpty = true
  · rw [if_pos hempty, if_pos hempty]
    exact .ofCarry rfl rfl
  · rw [if_neg hempty, if_neg hempty]
    refine .bind_modify rfl ?_
    rw [← add_columnOf_sub]
    refine .bind_check (exec_value here _ _) fun v _ => ?_
    exact .ofCarry rfl rfl

theorem decides_define : Decides enter chain here content (define here d argument) w
    (defineEffect (w.state.scope here) d argument w.column) :=
  decides_bindGlobal enter chain here content d w _ _ _

theorem decides_undefine : Decides enter chain here content (undefine d argument) w
    (atColumn w.column do return .unbind (← (d.variableArgument argument).mapError .structural)) := by
  unfold Decides
  rw [atColumn_bind]
  exact .bind_check rfl fun name _ => .ofCarry rfl rfl

theorem decides_redirect (target : Section) :
    Decides enter chain here content (redirect d target argument) w
      (redirectEffect d target argument w.column) :=
  .bind_check rfl fun _ _ => .ofCarry rfl rfl

theorem decides_act (extension : Option Extension) :
    Decides enter chain here content (act extension here d argument) w
      (actionEffect extension (w.state.scope here) d argument w.column) := by
  cases extension with
  | none => exact .ofCarry rfl rfl
  | some extension =>
    unfold Decides actionEffect
    dsimp only
    rw [atColumn_bind]
    refine .bind_check rfl fun es _ => ?_
    rw [atColumn_bind]
    refine .bind_check (exec_values here w es) fun arguments _ => .bind_get ?_
    -- the extension is asked before it is known whether the line fails
    show _ = carryOut enter chain here content w.state (.act extension arguments w.column)
    unfold carryOut
    dsimp only
    by_cases haccepts : extension.accepts w.state.actions ⟨here, arguments⟩ = true
    · rw [if_pos haccepts, if_pos haccepts]
      rfl
    · rw [if_neg haccepts, if_neg haccepts]
      rfl

theorem decides_logMessage (level : LogLevel) :
    Decides enter chain here content (logMessage level here argument) w
      (reportEffect level (w.state.scope here) argument w.column) := by
  unfold Decides reportEffect
  rw [map_eq_bind]
  exact .bind_moving (exec_insert here 0 (Text.trim argument) w) fun t => .ofCarry rfl rfl

theorem decides_stopWith : Decides enter chain here content (stopWith here argument) w
    (errorEffect (w.state.scope here) argument w.column) :=
  .bind_moving (exec_insert here 0 (Text.trim argument) w) fun _ => .fail _

theorem decides_exit : Decides enter chain here content (exit d argument) w
    (atColumn w.column do
      (d.noArgument argument).mapError .structural
      return .exit) := by
  unfold Decides
  rw [atColumn_bind]
  exact .bind_check rfl fun _ _ => .ofCarry rfl rfl

theorem decides_exitIf : Decides enter chain here content (exitIf here d argument) w
    (atColumn w.column do
      return if ← conditionHolds (w.state.scope here) d argument then .exit else .nothing) := by
  unfold Decides
  rw [atColumn_bind]
  refine .bind_check (exec_condition here w d argument) fun holds _ => ?_
  cases holds with
  | false => exact .ofCarry rfl rfl
  | true => exact .ofCarry rfl rfl

theorem decides_includeFile (files : FileTree) :
    Decides enter chain here content (includeFile enter files chain here d argument) w
      (atColumn w.column (includeEffect files chain (w.state.scope here) d argument)) := by
  unfold Decides includeEffect
  rw [atColumn_bind]
  refine .bind_check rfl fun e _ => ?_
  rw [atColumn_bind]
  refine .bind_check (exec_evaluate here w e) fun v _ => ?_
  rw [atColumn_bind]
  refine .bind_check rfl fun name _ => ?_
  rw [show (w.state.scope here).file = here.file from rfl]
  dsimp only
  by_cases hcycle : isCycle files chain here.file (includeTarget here.file name) = true
  · rw [if_pos hcycle, if_pos hcycle]
    exact .fail _
  · rw [if_neg hcycle, if_neg hcycle, atColumn_bind]
    refine .bind_check rfl fun t _ => ?_
    exact outcome_entering _ _ _ _

/-- A directive outside of conditionals comes to what is decided about it. -/
theorem decides_execute : Decides enter chain here content (execute enter env chain here d argument) w
    (directiveEffect env chain (w.state.scope here) d argument w.column) := by
  cases d with
  | localVariable => exact decides_bindLocal enter chain here content _ argument w
  | define => exact decides_define enter chain here content _ argument w
  | undefine => exact decides_undefine enter chain here content _ argument w
  | opening => exact decides_redirect enter chain here content _ argument w .opening
  | closing => exact decides_redirect enter chain here content _ argument w .closing
  | action => exact decides_act enter chain here content _ argument w env.extension
  | echo => exact decides_logMessage enter chain here content argument w .information
  | warning => exact decides_logMessage enter chain here content argument w .warning
  | error => exact decides_stopWith enter chain here content argument w
  | exit => exact decides_exit enter chain here content _ argument w
  | exitIf => exact decides_exitIf enter chain here content _ argument w
  | includeFile => exact decides_includeFile enter chain here content _ argument w env.files
  | _ => exact .ofCarry rfl rfl

/-- The steps of a line come to what is decided about it. -/
theorem decides_lineSteps : Decides enter chain here content (lineSteps enter env chain here content)
    w (lineEffect env chain here w.state content) := by
  unfold Decides lineEffect
  refine .bind_modify rfl ?_
  cases lineKind env.marker content with
  | plain =>
    refine .bind_get ?_
    dsimp only
    by_cases hactive : w.state.state.blocks.isActive = true
    · rw [if_pos hactive, if_pos hactive, map_eq_bind]
      obtain ⟨column, hrender⟩ := exec_render here content { w with column := 1 } rfl
      exact .bind_moving hrender fun line => .ofCarry rfl rfl
    · rw [if_neg hactive, if_neg hactive]
      exact .ofCarry rfl rfl
  | unknown rest => exact .fail _
  | directive d argument =>
    refine .bind_modify rfl ?_
    dsimp only
    by_cases hpass : d.pass = .global
    · rw [if_pos hpass, if_pos hpass]
      exact .ofCarry rfl rfl
    rw [if_neg hpass, if_neg hpass]
    by_cases hconditional : d.isConditional = true
    · rw [if_pos hconditional, if_pos hconditional]
      exact (reblocks_conditional _ here d argument _).map fun b => rfl
    rw [if_neg hconditional, if_neg hconditional]
    refine .bind_get ?_
    dsimp only
    by_cases hactive : w.state.state.blocks.isActive = true
    · rw [if_pos hactive, if_pos hactive]
      exact decides_execute enter env chain here content d argument _
    · rw [if_neg hactive, if_neg hactive]
      exact .ofCarry rfl rfl

/-- From every state and wherever the register is, the steps of a line come to what the pass makes of
the line. -/
theorem outcome_lineSteps :
    (lineSteps enter env chain here content).outcome
      (fun fault => fault.diagnostic chain here content) w =
        processLine enter env chain here content w.state := by
  rw [processLine_eq_settle]
  exact decides_lineSteps enter env chain here content w

end Decisions

end LineInPlace

end SourcePreprocessor
