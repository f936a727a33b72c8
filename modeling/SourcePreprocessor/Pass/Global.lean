import SourcePreprocessor.Block
import SourcePreprocessor.Directive.Line
import SourcePreprocessor.Expr.Eval
import SourcePreprocessor.Log
import SourcePreprocessor.Scope

/-!
# The global pass

Before any output, every file is read for the definitions that all files share and for the
conditions under which the file is left out. Only the directives of this pass count, and only inside
the active branches of its own conditionals; every other line is read over, whatever it holds.

A directive either gives the next state of the pass or fails and changes nothing (`scanDirective`).
A pass that changes its state in place, step by step within a line, comes to the same, also when it
fails (`Proofs.Pass.ScanInPlace`).
-/

namespace SourcePreprocessor

/-- A condition under which a file is left out, and the line it stands on. -/
structure Exclusion where
  condition : Expression
  position : Position

/-- Whether the condition holds for the given variables. It sees no variables of its file. -/
def Exclusion.holds (e : Exclusion) (globals : Table) : Except Diagnostic Bool :=
  let scope : Scope := ⟨e.position.file, e.position.line, none, globals⟩
  (e.condition.condition scope.get?).mapError fun error =>
    { Diagnostic.atLine (.expression error) e.position with fragment := some e.condition.source }

/-- The state of the pass over one file. -/
structure Scan where
  blocks : BlockStack
  globals : Table
  exclusions : List Exclusion
  log : List LogRecord

namespace Scan

/-- The state at the start of a file. -/
def start (globals : Table) : Scan := ⟨.empty, globals, [], []⟩

/-- The scope of an expression. -/
def scope (s : Scan) (here : Position) : Scope := ⟨here.file, here.line, none, s.globals⟩

/-- Opens a block, asking for its condition where it can matter. -/
def openBlock (s : Scan) (here : Position) (d : Directive) (argument : Text) :
    Except Cause BlockStack := do
  if s.blocks.isActive then
    let e ← d.expressionArgument argument
    let holds ← (e.condition (s.scope here).get?).mapError .expression
    return s.blocks.enter (some holds) d here.line
  else return s.blocks.enter none d here.line

/-- Defines a variable. -/
def define (s : Scan) (here : Position) (d : Directive) (argument : Text) (column : Nat) :
    Except Fault Scan := do
  let (name, source) ← atColumn column ((d.assignmentArgument argument).mapError .structural)
  atColumn (column + columnOf (Text.trimStart argument) source - 1) do
    let e ← (parse (Text.trimEnd source)).mapError .parse
    let v ← (e.eval (s.scope here).get?).mapError .expression
    let record : LogRecord :=
      ⟨.detail, here.string ++ ": global " ++ name.string ++ " = " ++ Text.string v.literal⟩
    return { s with globals := s.globals.set name v, log := s.log ++ [record] }

end Scan

/-- What a directive makes of the state; its argument starts at the given column. -/
def scanDirective (s : Scan) (here : Position) (d : Directive) (argument : Text) (column : Nat) :
    Except Fault Scan :=
  match d with
  | .globalIf => atColumn column do
    return { s with blocks := ← s.openBlock here d argument }
  | .globalOtherwise => atColumn column (Except.mapError .structural do
    d.noArgument argument
    return { s with blocks := ← s.blocks.otherwise d })
  | .globalEndIf => atColumn column (Except.mapError .structural do
    d.noArgument argument
    return { s with blocks := ← s.blocks.close d })
  | .global => if s.blocks.isActive then s.define here d argument column else .ok s
  | .excludeIf =>
    if s.blocks.isActive then atColumn column do
      let e ← d.expressionArgument argument
      return { s with exclusions := s.exclusions ++ [⟨e, here⟩] }
    else .ok s
  | _ => .ok s

/-- What a line makes of the state. -/
def scanLine (marker : Text) (s : Scan) (here : Position) (content : Text) : Except Fault Scan :=
  match lineKind marker content with
  | .directive d argument => scanDirective s here d argument (argumentColumn content argument)
  | _ => .ok s

/-- The pass over lines, the first of which has the given number. A failure comes with the state
before the line that failed. -/
def scanLines (marker : Text) (file : Path) : Nat → List Text → Scan → Except Diagnostic Unit × Scan
  | _, [], s => (.ok (), s)
  | line, content :: contents, s =>
    match scanLine marker s ⟨file, line⟩ content with
    | .error fault => (.error (fault.diagnostic [] ⟨file, line⟩ content), s)
    | .ok s => scanLines marker file (line + 1) contents s

/-- The pass over a file. All blocks must be closed at its end. -/
def scanFile (marker : Text) (file : Path) (t : Text) (globals : Table) :
    Except Diagnostic Unit × Scan :=
  match scanLines marker file 1 (Text.lines t) (.start globals) with
  | (.error d, s) => (.error d, s)
  | (.ok (), s) =>
    match s.blocks.unclosed? 0 with
    | none => (.ok (), s)
    | some frame =>
      (.error (.atLine (.structural (.unclosedBlock frame.openedBy frame.openedAt))
        ⟨file, frame.openedAt⟩), s)

end SourcePreprocessor
