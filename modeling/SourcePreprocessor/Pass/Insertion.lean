import SourcePreprocessor.Directive.Line
import SourcePreprocessor.Expr.Eval
import SourcePreprocessor.Scope

/-!
# Insertions

Inside a line, an expression between two marks is replaced by its value. A line falls into pieces
from left to right: characters that stay, and insertions that end at the first closing mark after
their opening mark. An opening mark that no closing mark follows stays as text. Inserted values are
not looked at again.
-/

namespace SourcePreprocessor

/-- What opens an insertion. -/
def openMark : Text := ['/', '*', '$']

/-- What closes an insertion. -/
def closeMark : Text := ['$', '*', '/']

/-- A piece of a line. -/
inductive Piece where
  | plain (c : Char)
  /-- The expression between two marks, and the column at which it starts. -/
  | insertion (column : Nat) (body : Text)
  deriving DecidableEq, Repr

/-- The expression of the insertion that a text starts with. -/
def insertionAt? (t : Text) : Option Text := do
  let rest ← Text.stripStart? openMark t
  let (body, _) ← Text.cut? closeMark rest
  return body

/-- The pieces of a text that starts at the given column and whose first `skip` characters belong to
an insertion already taken. -/
def piecesFrom : (skip column : Nat) → Text → List Piece
  | _, _, [] => []
  | skip + 1, column, _ :: rest => piecesFrom skip (column + 1) rest
  | 0, column, c :: rest =>
    match insertionAt? (c :: rest) with
    | some body =>
      .insertion (column + openMark.length) body ::
        piecesFrom (openMark.length + body.length + closeMark.length - 1) (column + 1) rest
    | none => .plain c :: piecesFrom 0 (column + 1) rest

/-- The pieces of a text that starts at the given column. -/
def pieces (column : Nat) (t : Text) : List Piece := piecesFrom 0 column t

namespace Piece

/-- The column at which the expression of an insertion starts, without its leading blanks. -/
def expressionColumn? : Piece → Option Nat
  | .plain _ => none
  | .insertion column body => some (column + Text.leadingBlanks body)

/-- The text that a piece becomes. -/
def render (scope : Scope) : Piece → Except Fault Text
  | .plain c => .ok [c]
  | .insertion column body => atColumn (column + Text.leadingBlanks body) do
    let e ← (parse (Text.trim body)).mapError .parse
    let v ← (e.eval scope.get?).mapError .expression
    return v.display

end Piece

/-- The text that pieces become, one after the other. -/
def renderPieces (scope : Scope) : List Piece → Except Fault Text
  | [] => .ok []
  | piece :: rest => do
    let first ← piece.render scope
    let others ← renderPieces scope rest
    return first ++ others

/-- A text that starts at the given column, with its insertions replaced by their values. -/
def insertValues (scope : Scope) (column : Nat) (t : Text) : Except Fault Text :=
  renderPieces scope (pieces column t)

/-- The column of the last insertion of a text, or that of the text when it has none. -/
def lastInsertionColumn (column : Nat) (t : Text) : Nat :=
  ((pieces column t).filterMap Piece.expressionColumn?).getLastD column

/-- What starts a line that is written without it, and without insertions. -/
def rawMark : Text := ['/', '/', '$', '$']

/-- What starts a line that is written without it. -/
def uncommentMark : Text := ['/', '/', '$']

/-- The output of a line of text. -/
def renderLine (scope : Scope) (content : Text) : Except Fault Text :=
  let indent := content.takeWhile Text.isBlank
  let body := Text.trimStart content
  match Text.stripStart? rawMark body with
  | some rest => .ok (indent ++ rest)
  | none =>
    match Text.stripStart? uncommentMark body with
    | some rest => (insertValues scope (columnOf content rest) rest).map (indent ++ ·)
    | none => insertValues scope 1 content

end SourcePreprocessor
