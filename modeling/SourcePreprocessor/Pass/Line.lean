import SourcePreprocessor.File.Tree
import SourcePreprocessor.Log
import SourcePreprocessor.Pass.Insertion
import SourcePreprocessor.Pass.Output

/-!
# The line pass

The pass that produces output goes through a file line by line. What a line asks for is decided
first and without changing anything (`lineEffect`): it is an `Effect`, or a `Fault`. Only then is
the effect carried out, so a line that fails leaves everything as it was. That this is no matter of
how the pass is written down, but of the order in which the directives do things, is shown by lines
that change the state in place (`Proofs.Pass.LineInPlace`): they come to the same.

Text and directives inside an inactive branch have no effect and are not even read; of the
conditional directives, only those conditions are evaluated that can still select a branch.

An included file is processed in place and shares the state of the file that includes it, its open
blocks too; at its end no more blocks may be open than at its start. Includes nest no deeper than
there are files, because a file that is being processed cannot be included again; `processText`
recurses on that bound.
-/

namespace SourcePreprocessor

/-- What stays the same during the pass over one file. -/
structure Environment where
  marker : Text
  files : FileTree
  extension : Option Extension

/-- What changes during the pass over one file. -/
structure Machine where
  state : FileState
  globals : Table
  /-- The actions that the extension received. -/
  actions : List Action
  log : List LogRecord

/-- What a line asks for. -/
inductive Effect where
  | nothing
  | emit (line : Text)
  | reblock (blocks : BlockStack)
  | bindLocal (name : Text) (v : Value)
  | bindGlobal (name : Text) (v : Value)
  | unbind (name : Text)
  | redirect (target : Section)
  | report (level : LogLevel) (t : Text)
  /-- Values for the extension; the argument starts at the column. -/
  | act (extension : Extension) (arguments : List Value) (column : Nat)
  | exit
  /-- A file to process in place. -/
  | enter (file : Path) (t : Text)

/-! ## Conditional directives -/

/-- Whether the condition of a directive holds. -/
def conditionHolds (scope : Scope) (d : Directive) (argument : Text) : Except Cause Bool :=
  match d with
  | .ifDefined => do
    return (scope.get? (← (d.variableArgument argument).mapError .structural)).isSome
  | .ifUndefined => do
    return (scope.get? (← (d.variableArgument argument).mapError .structural)).isNone
  | _ => do
    let e ← d.expressionArgument argument
    (e.condition scope.get?).mapError .expression

/-- The condition of a directive, when it is asked for. -/
def conditionIf (wanted : Bool) (scope : Scope) (d : Directive) (argument : Text) :
    Except Cause (Option Bool) :=
  if wanted then (conditionHolds scope d argument).map some else .ok none

/-- The blocks after a conditional directive. -/
def conditionalBlocks (scope : Scope) (blocks : BlockStack) (d : Directive) (argument : Text) :
    Except Cause BlockStack :=
  match d with
  | .elseIf => do
    let wanted ← (blocks.needsCondition d).mapError .structural
    let condition ← conditionIf wanted scope d argument
    (blocks.elseIf condition d).mapError .structural
  | .otherwise => Except.mapError .structural do
    d.noArgument argument
    blocks.otherwise d
  | .endIf => Except.mapError .structural do
    d.noArgument argument
    blocks.close d
  | _ => do
    let condition ← conditionIf blocks.isActive scope d argument
    return blocks.enter condition d scope.line

/-! ## Other directives -/

/-- The value of an expression in a line. -/
def lineValue (scope : Scope) (source : Text) : Except Cause Value := do
  let e ← (parse source).mapError .parse
  (e.eval scope.get?).mapError .expression

/-- The values of expressions in a line, from left to right. -/
def lineValues (scope : Scope) : List Expression → Except Cause (List Value)
  | [] => .ok []
  | e :: es => do
    let v ← (e.eval scope.get?).mapError .expression
    let vs ← lineValues scope es
    return v :: vs

/-- Defines a variable of the file. -/
def localEffect (scope : Scope) (d : Directive) (argument : Text) (column : Nat) :
    Except Fault Effect := do
  let (name, source) ← atColumn column ((d.assignmentArgument argument).mapError .structural)
  let v ← atColumn (column + columnOf (Text.trimStart argument) source - 1)
    (lineValue scope (Text.trimEnd source))
  return .bindLocal name v

/-- Defines a variable of the run, as true when no expression is given. -/
def defineEffect (scope : Scope) (d : Directive) (argument : Text) (column : Nat) :
    Except Fault Effect := do
  let whole := Text.trim argument
  let (name, rest) := match Text.cutAt? Text.isBlank whole with
    | some (name, _, rest) => (name, rest)
    | none => (whole, [])
  let name ← atColumn column ((d.variableArgument name).mapError .structural)
  let source := Text.trimStart rest
  if source.isEmpty then return .bindGlobal name (.bool true)
  else
    let v ← atColumn (column + columnOf whole source - 1) (lineValue scope source)
    return .bindGlobal name v

/-- Sends further lines to a section, or back to the main one. -/
def redirectEffect (d : Directive) (target : Section) (argument : Text) (column : Nat) :
    Except Fault Effect := do
  let on ← atColumn column ((d.switchArgument argument).mapError .structural)
  return .redirect (if on then target else .main)

/-- Hands values to the extension, when there is one. -/
def actionEffect (extension : Option Extension) (scope : Scope) (d : Directive) (argument : Text)
    (column : Nat) : Except Fault Effect :=
  match extension with
  | none => .ok (.report .detail "action ignored, no extension registered".toList)
  | some extension => atColumn column do
    let es ← d.expressionsArgument argument
    return .act extension (← lineValues scope es) column

/-- Logs a message. -/
def reportEffect (level : LogLevel) (scope : Scope) (argument : Text) (column : Nat) :
    Except Fault Effect :=
  (insertValues scope column (Text.trim argument)).map (.report level)

/-- Stops with a message, at the column of its last insertion. -/
def errorEffect (scope : Scope) (argument : Text) (column : Nat) : Except Fault Effect := do
  let message ← insertValues scope column (Text.trim argument)
  .error ⟨.evaluation (.userError message), lastInsertionColumn column (Text.trim argument)⟩

/-- The path that a file names another by: seen from the directory of the file. -/
def includeTarget (file : Path) (name : Text) : Path := (file.parent?.getD ⟨[]⟩).join ⟨name⟩

/-- Whether a target is the current file or one that it was included from. -/
def isCycle (files : FileTree) (chain : List Position) (file target : Path) : Bool :=
  files.samePlace file target || chain.any fun position => files.samePlace position.file target

/-- Processes another file in place. -/
def includeEffect (files : FileTree) (chain : List Position) (scope : Scope) (d : Directive)
    (argument : Text) : Except Cause Effect := do
  let e ← d.expressionArgument argument
  let v ← (e.eval scope.get?).mapError .expression
  let name ← v.toText.mapError .expression
  let target := includeTarget scope.file name
  if isCycle files chain scope.file target then .error (.structural (.includeCycle target))
  else
    let t ← (files.readText target).mapError fun fault => .file (.plain fault)
    return .enter target t

/-- What a directive outside of conditionals asks for; its argument starts at the given column. -/
def directiveEffect (env : Environment) (chain : List Position) (scope : Scope) (d : Directive)
    (argument : Text) (column : Nat) : Except Fault Effect :=
  match d with
  | .localVariable => localEffect scope d argument column
  | .define => defineEffect scope d argument column
  | .undefine => atColumn column do
    return .unbind (← (d.variableArgument argument).mapError .structural)
  | .opening => redirectEffect d .opening argument column
  | .closing => redirectEffect d .closing argument column
  | .action => actionEffect env.extension scope d argument column
  | .echo => reportEffect .information scope argument column
  | .warning => reportEffect .warning scope argument column
  | .error => errorEffect scope argument column
  | .exit => atColumn column do
    (d.noArgument argument).mapError .structural
    return .exit
  | .exitIf => atColumn column do
    return if ← conditionHolds scope d argument then .exit else .nothing
  | .includeFile => atColumn column (includeEffect env.files chain scope d argument)
  | _ => .ok .nothing

/-! ## Lines -/

/-- What a line sees. -/
def Machine.scope (m : Machine) (here : Position) : Scope :=
  ⟨here.file, here.line, some m.state.locals, m.globals⟩

/-- What a line asks for. -/
def lineEffect (env : Environment) (chain : List Position) (here : Position) (m : Machine)
    (content : Text) : Except Fault Effect :=
  match lineKind env.marker content with
  | .plain =>
    if m.state.blocks.isActive then (renderLine (m.scope here) content).map .emit else .ok .nothing
  | .unknown rest => .error ⟨.structural (.unknownDirective (Text.trimEnd rest)), 1⟩
  | .directive d argument =>
    let column := argumentColumn content argument
    if d.pass = .global then .ok .nothing
    else if d.isConditional then
      (atColumn column (conditionalBlocks (m.scope here) m.state.blocks d argument)).map .reblock
    else if m.state.blocks.isActive then
      directiveEffect env chain (m.scope here) d argument column
    else .ok .nothing

/-- Whether the lines after a line are still processed. -/
inductive Flow where
  | next
  | stop
  deriving DecidableEq, Repr

namespace Machine

/-- The machine with a record added to its log. -/
def note (m : Machine) (level : LogLevel) (text : String) : Machine :=
  { m with log := m.log ++ [⟨level, text⟩] }

/-- The machine after an effect that concerns nothing but the machine. -/
def perform (m : Machine) (here : Position) : Effect → Machine
  | .emit line => { m with state := m.state.emit line }
  | .reblock blocks => { m with state := { m.state with blocks } }
  | .bindLocal name v => { m with state := { m.state with locals := m.state.locals.set name v } }
  | .bindGlobal name v => { m with globals := m.globals.set name v }
  | .unbind name => { m with
    state := { m.state with locals := m.state.locals.erase name }, globals := m.globals.erase name }
  | .redirect target => { m with state := { m.state with target } }
  | .report level t => m.note level (here.string ++ ": " ++ t.string)
  | _ => m

end Machine

/-- What a pass over lines gives: whether to go on, or the failure, and the machine. -/
abbrev Processed := Except Diagnostic Flow × Machine

/-- Carries out what a line asks for. `enter` processes an included file. -/
def processLine (enter : List Position → Path → Text → Machine → Processed) (env : Environment)
    (chain : List Position) (here : Position) (content : Text) (m : Machine) : Processed :=
  match lineEffect env chain here m content with
  | .error fault => (.error (fault.diagnostic chain here content), m)
  | .ok .exit => (.ok .stop, m)
  | .ok (.enter file t) =>
    enter (chain ++ [here]) file t
      (m.note .detail (here.string ++ ": including " ++ file.string))
  | .ok (.act extension arguments column) =>
    let action : Action := ⟨here, arguments⟩
    let after := { m with actions := m.actions ++ [action] }
    if extension.accepts m.actions action then (.ok .next, after)
    else
      let fault : Fault := ⟨.evaluation (.extensionFailed arguments), column⟩
      (.error (fault.diagnostic chain here content), after)
  | .ok effect => (.ok .next, m.perform here effect)

/-- Goes through lines, the first of which has the given number. -/
def processLines (enter : List Position → Path → Text → Machine → Processed) (env : Environment)
    (chain : List Position) (file : Path) : Nat → List Text → Machine → Processed
  | _, [], m => (.ok .next, m)
  | line, content :: contents, m =>
    match processLine enter env chain ⟨file, line⟩ content m with
    | (.ok .next, m) => processLines enter env chain file (line + 1) contents m
    | (.ok .stop, m) => (.ok .stop, m.note .detail ((Position.mk file line).string ++ ": exit"))
    | (.error d, m) => (.error d, m)

/-- Checks that the blocks opened since the given depth are closed. -/
def checkClosed (chain : List Position) (file : Path) (depth : Nat) (m : Machine) : Processed :=
  match m.state.blocks.unclosed? depth with
  | none => (.ok .next, m)
  | some frame =>
    (.error { Diagnostic.atLine (.structural (.unclosedBlock frame.openedBy frame.openedAt))
      ⟨file, frame.openedAt⟩ with includedFrom := chain }, m)

/-- Goes through the text of a file, in which includes nest less deep than the bound. -/
def processText (env : Environment) :
    (bound : Nat) → List Position → Path → Text → Machine → Processed
  | 0, chain, file, _, m =>
    (.error { Diagnostic.inFile (.structural (.includeCycle file)) file with
      includedFrom := chain }, m)
  | bound + 1, chain, file, t, m =>
    match processLines (processText env bound) env chain file 1 (Text.lines t) m with
    | (.ok .next, after) => checkClosed chain file m.state.blocks.depth after
    | result => result

/-- A bound on the nesting of includes that no text exceeds: a file, and one for each further file
that it can lead to. -/
def includeBound (files : FileTree) : Nat := files.fileCount + 2

/-- What the pass over a file gives: its output or the failure, and the machine at its end. -/
def processFile (env : Environment) (settings : Settings) (file : Path) (t : Text) (m : Machine) :
    Except Diagnostic Text × Machine :=
  match processText env (includeBound env.files) [] file t m with
  | (.ok _, m) => (.ok (renderOutput settings t m.state.lines), m)
  | (.error d, m) => (.error d, m)

end SourcePreprocessor
