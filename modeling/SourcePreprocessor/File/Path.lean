import SourcePreprocessor.Text.Case

/-!
# Paths

A path is a text of pieces with slashes between them. It is kept as written, because messages show
it that way; what it stands for is its list of components, in which empty pieces and single dots
play no part, except that a leading dot is kept. Two paths are the same when their components are.
-/

namespace SourcePreprocessor

/-- A path as it was written. -/
structure Path where
  text : Text
  deriving DecidableEq, Repr

/-- A component of a path. -/
inductive Component where
  | root
  | current
  | parent
  | name (t : Text)
  deriving DecidableEq, Repr

namespace Path

/-- A path from a string. -/
def ofString (s : String) : Path := ⟨s.toList⟩

/-- The path as a string. -/
def string (p : Path) : String := p.text.string

/-- Whether a piece plays no part in a path: it is empty or a single dot. -/
def isIdle (piece : Text) : Bool := piece.isEmpty || piece = ['.']

/-- Whether the path starts at the root. -/
def isAbsolute (p : Path) : Bool := p.text.head? = some '/'

/-- Whether the path starts with a piece that is a single dot. -/
def startsHere (p : Path) : Bool := (Text.splitOn (· = '/') p.text).head? = some ['.']

/-- What leads the path: the slash of the root, a single dot, or nothing. -/
def lead (p : Path) : Text :=
  if p.isAbsolute then ['/'] else if p.startsHere then ['.'] else []

/-- The pieces after what leads the path. -/
def pieces (p : Path) : List Text :=
  if p.isAbsolute || p.startsHere then (Text.splitOn (· = '/') p.text).tail
  else Text.splitOn (· = '/') p.text

/-- The component of a piece that plays a part. -/
def component? (piece : Text) : Option Component :=
  if isIdle piece then none
  else if piece = ['.', '.'] then some .parent
  else some (.name piece)

/-- The components of the path. -/
def components (p : Path) : List Component :=
  (if p.isAbsolute then [.root] else if p.startsHere then [.current] else []) ++
    p.pieces.filterMap component?

/-- Whether two paths have the same components. -/
def same (p q : Path) : Bool := p.components = q.components

/-- The path with the given lead and pieces. -/
def build (lead : Text) (pieces : List Text) : Path :=
  if pieces.isEmpty then ⟨lead⟩
  else if lead = ['.'] then ⟨lead ++ '/' :: Text.join ['/'] pieces⟩
  else ⟨lead ++ Text.join ['/'] pieces⟩

/-- The path without its last component; the root and the empty path have none. -/
def parent? (p : Path) : Option Path :=
  match p.pieces.reverse.dropWhile isIdle with
  | _ :: before => some (build p.lead (before.dropWhile isIdle).reverse)
  | [] => if p.isAbsolute || p.text.isEmpty then none else some ⟨[]⟩

/-- The last component, if it is a name. -/
def fileName? (p : Path) : Option Text :=
  match p.components.getLast? with
  | some (.name t) => some t
  | _ => none

/-- What follows the last dot of the file's name, unless that dot leads it. -/
def extension? (p : Path) : Option Text := do
  let name ← p.fileName?
  match Text.cutAt? (· = '.') name.reverse with
  | some (after, _, before) => if before.isEmpty then none else some after.reverse
  | none => none

/-- The path of `q` seen from `p`; an absolute `q` is itself. -/
def join (p q : Path) : Path :=
  if q.isAbsolute then q
  else if p.text.isEmpty || p.text.getLast? = some '/' then ⟨p.text ++ q.text⟩
  else ⟨p.text ++ '/' :: q.text⟩

/-- The path of an entry of the directory. -/
def child (p : Path) (name : Text) : Path := p.join ⟨name⟩

end Path

end SourcePreprocessor
