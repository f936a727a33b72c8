import SourcePreprocessor.Expr.Eval
import SourcePreprocessor.Log
import SourcePreprocessor.Scope

/-!
# Definitions

A variable of the run is defined by a text `name=expression`, on the command line or in a line of a
configuration file. The expression sees the variables defined so far. Blank lines of a configuration
file and those that start with `#` are comments.
-/

namespace SourcePreprocessor

/-- The name and the value that a definition gives. -/
def evaluateDefinition (t : Text) (here : Position) (globals : Table) :
    Except Cause (Text × Value) :=
  match Text.cutAt? (· = '=') t with
  | none => .error (.definition t)
  | some (before, _, after) =>
    let name := Text.trim before
    if isName name then do
      let e ← (parse (Text.trim after)).mapError .parse
      let scope : Scope := ⟨here.file, here.line, none, globals⟩
      let v ← (e.eval scope.get?).mapError .expression
      return (name, v)
    else .error (.definition t)

/-- The variables of the run, and the records of their definitions. -/
structure Definitions where
  globals : Table
  log : List LogRecord

/-- The variables after a definition. -/
def Definitions.add (ds : Definitions) (t : Text) (here : Position) : Except Cause Definitions := do
  let (name, v) ← evaluateDefinition t here ds.globals
  let record : LogRecord :=
    ⟨.detail, "Global " ++ Text.string (Text.lower name) ++ " = " ++ Text.string v.literal⟩
  return ⟨ds.globals.set name v, ds.log ++ [record]⟩

/-- Whether a trimmed line of a configuration file defines nothing. -/
def isComment (line : Text) : Bool := line.isEmpty || line.head? = some '#'

/-- The variables after the lines of a configuration file, the first of which has the given number.
A failure comes with the variables before the line that failed. -/
def Definitions.addLines (file : Path) :
    Nat → List Text → Definitions → Except Diagnostic Unit × Definitions
  | _, [], ds => (.ok (), ds)
  | line, content :: contents, ds =>
    let trimmed := Text.trim content
    if isComment trimmed then addLines file (line + 1) contents ds
    else match ds.add trimmed ⟨file, line⟩ with
      | .ok ds => addLines file (line + 1) contents ds
      | .error cause =>
        (.error { Diagnostic.atLine cause ⟨file, line⟩ with fragment := some trimmed }, ds)

/-- The variables after a configuration file. -/
def Definitions.addFile (ds : Definitions) (file : Path) (t : Text) :
    Except Diagnostic Unit × Definitions :=
  addLines file 1 (Text.lines t) ds

end SourcePreprocessor
