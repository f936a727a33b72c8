import SourcePreprocessor.Directive.Argument

/-!
# Directive lines

A line is a directive line when, after its indentation, it starts with the marker. What follows the
marker should start with a keyword; the argument is everything after that.

A failure on a line is first known with the column at which the failing expression or argument
starts (`Fault`); together with the line it becomes a `Diagnostic`.
-/

namespace SourcePreprocessor

/-- What a line is. -/
inductive LineKind where
  | plain
  | directive (d : Directive) (argument : Text)
  /-- The marker followed by no keyword. -/
  | unknown (rest : Text)
  deriving DecidableEq, Repr

/-- What the line with the given content is. -/
def lineKind (marker content : Text) : LineKind :=
  match Text.stripStart? marker (Text.trimStart content) with
  | none => .plain
  | some rest =>
    match Directive.find? rest with
    | some (d, argument) => .directive d argument
    | none => .unknown rest

/-- The column at which the last `rest.length` characters of a content start. -/
def columnOf (content rest : Text) : Nat := content.length - rest.length + 1

/-- The column at which the argument of a directive line starts, without its leading blanks. -/
def argumentColumn (content argument : Text) : Nat := columnOf content (Text.trimStart argument)

/-- A failure on a line, and the column its text starts at. -/
structure Fault where
  cause : Cause
  column : Nat
  deriving DecidableEq

/-- The result of an operation whose text starts at the given column. -/
def atColumn {α : Type} (column : Nat) (result : Except Cause α) : Except Fault α :=
  result.mapError fun cause => ⟨cause, column⟩

/-- The diagnostic of a failure on a line of a file that was included from the given lines. -/
def Fault.diagnostic (fault : Fault) (includedFrom : List Position) (here : Position)
    (content : Text) : Diagnostic where
  cause := fault.cause
  file := some here.file
  line := some here.line
  column := some (fault.cause.column fault.column)
  fragment := some (Text.trim content)
  includedFrom := includedFrom

end SourcePreprocessor
