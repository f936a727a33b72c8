import SourcePreprocessor.Diagnostic
import SourcePreprocessor.Expr.Parser

/-!
# Arguments of directives

What follows a keyword is read by the form that the directive asks for. Text around the argument is
trimmed first; a directive that needs an argument refuses blank text before anything else.
-/

namespace SourcePreprocessor

/-- An argument that has the form its directive asks for. -/
inductive Argument where
  | none
  | switch (on : Bool)
  | expression (e : Expression)
  | expressions (es : List Expression)
  | freeText (t : Text)

namespace Directive

/-- Checks that nothing but blanks follows the keyword. -/
def noArgument (d : Directive) (t : Text) : Except StructureError Unit :=
  if (Text.trim t).isEmpty then .ok () else .error (.unexpectedArgument d (Text.trim t))

/-- Reads a plus sign as on and a minus sign as off. -/
def switchArgument (d : Directive) (t : Text) : Except StructureError Bool :=
  match Text.trim t with
  | ['+'] => .ok true
  | ['-'] => .ok false
  | other => .error (.invalidSwitch d other)

/-- The trimmed text, which may not be empty. -/
def neededArgument (d : Directive) (t : Text) : Except StructureError Text :=
  if (Text.trim t).isEmpty then .error (.missingArgument d) else .ok (Text.trim t)

/-- Reads one expression. -/
def expressionArgument (d : Directive) (t : Text) : Except Cause Expression := do
  let source ← (d.neededArgument t).mapError .structural
  (parse source).mapError .parse

/-- Reads expressions with commas between them. -/
def expressionsArgument (d : Directive) (t : Text) : Except Cause (List Expression) := do
  let source ← (d.neededArgument t).mapError .structural
  (parseList source).mapError .parse

/-- Reads the name of a variable, in lower case. -/
def variableArgument (d : Directive) (t : Text) : Except StructureError Text := do
  let name ← d.neededArgument t
  if isName name then .ok (Text.lower name) else .error (.unexpectedArgument d name)

/-- Reads `name=expression`: the name in lower case, and the text of the expression without its
leading blanks. -/
def assignmentArgument (d : Directive) (t : Text) : Except StructureError (Text × Text) :=
  match Text.cutAt? (· = '=') t with
  | some (before, _, after) =>
    if isName (Text.trim before) then .ok (Text.lower (Text.trim before), Text.trimStart after)
    else .error (.malformedAssignment d (Text.trim t))
  | none => .error (.malformedAssignment d (Text.trim t))

/-- Reads the argument by its form. -/
def readArgument (d : Directive) (t : Text) : Except Cause Argument :=
  match d.argumentForm with
  | .none => ((d.noArgument t).map fun _ => Argument.none).mapError .structural
  | .switch => ((d.switchArgument t).map .switch).mapError .structural
  | .expression => (d.expressionArgument t).map .expression
  | .expressions => (d.expressionsArgument t).map .expressions
  | .freeText => .ok (.freeText (Text.trim t))

end Directive

end SourcePreprocessor
