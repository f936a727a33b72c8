import SourcePreprocessor.File.Path
import SourcePreprocessor.Number.Integer
import SourcePreprocessor.Table

/-!
# Scopes

An expression in a file sees four special variables that describe its place, then the variables of
its file, then those of the whole run. A definition cannot hide a special variable.
-/

namespace SourcePreprocessor

/-- What an expression at one line of one file sees. -/
structure Scope where
  file : Path
  line : Nat
  /-- The variables of the file; the first pass has none. -/
  locals : Option Table
  globals : Table

namespace Scope

/-- The folder of a file, with a slash at its end unless it is empty. -/
def folder (file : Path) : Text :=
  match file.parent? with
  | none => []
  | some parent =>
    if parent.text.isEmpty || parent.text.getLast? = some '/' then parent.text
    else parent.text ++ ['/']

/-- The value of a special variable. -/
def special? (s : Scope) (name : Text) : Option Value :=
  if name = "__line__".toList then (Number.narrow? s.line).map .int
  else if name = "__filename__".toList then some (.str (s.file.fileName?.getD []))
  else if name = "__filefolder__".toList then some (.str (folder s.file))
  else if name = "__file__".toList then some (.str s.file.text)
  else none

/-- The value of a variable. -/
def get? (s : Scope) (name : Text) : Option Value :=
  (s.special? name).or ((s.locals.bind (·.get? name)).or (s.globals.get? name))

end Scope

end SourcePreprocessor
