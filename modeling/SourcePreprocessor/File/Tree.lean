import SourcePreprocessor.Diagnostic
import SourcePreprocessor.Text.Order

/-!
# File trees

A file tree is a finite list of directories and files by their location, the list of names that
leads to them from the root. The list is kept in the order of locations, which is the order of a
walk that visits the entries of each directory by name and a directory before what is in it. A
relative path starts at the working directory.

A path is followed piece by piece: every piece needs a directory to start from, so a path that goes
through a file or ends in a slash after one is refused, and `..` is the directory that holds the
current one.

A change of a tree that takes several steps can fail after some of them. Its `Outcome` is a result
together with the tree at that point: what was done before the failure stays.

There are no symbolic links and no permissions. A location is the canonical form of every path that
leads to it, and whatever stands there can be read, written and removed.
-/

namespace SourcePreprocessor

/-- What a file holds: text, or bytes that are no text. -/
inductive Content where
  | text (t : Text)
  | bytes (b : List UInt8)
  deriving DecidableEq, Repr

/-- The content with the given bytes. -/
def Content.ofBytes (b : List UInt8) : Content :=
  match String.fromUTF8? ⟨b.toArray⟩ with
  | some s => .text s.toList
  | none => .bytes b

/-- A directory or a file. -/
inductive Node where
  | directory
  | file (content : Content)
  deriving DecidableEq, Repr

/-- The names that lead to a directory or file from the root. -/
abbrev Location := List Text

namespace Location

/-- The order of a walk: by the first name that differs, a directory before what is in it. -/
def compare : Location → Location → Ordering
  | [], [] => .eq
  | [], _ :: _ => .lt
  | _ :: _, [] => .gt
  | a :: l, b :: m => (Text.compare a b).then (compare l m)

/-- Whether the second location is the first one or below it. -/
def isAtOrBelow (directory location : Location) : Bool := directory.isPrefixOf location

end Location

/-- Directories and files by location. -/
structure FileTree where
  entries : List (Location × Node)
  workingDirectory : Location
  deriving DecidableEq

namespace FileTree

/-- The tree that has the working directory and nothing else. -/
def empty (workingDirectory : Location) : FileTree :=
  ⟨(List.range workingDirectory.length).map fun n => (workingDirectory.take (n + 1), .directory),
    workingDirectory⟩

/-- What stands at a location; the root is a directory. -/
def node? (tree : FileTree) (location : Location) : Option Node :=
  if location.isEmpty then some .directory else tree.entries.lookup location

/-- The entries with one put in its place, instead of the one that was there. -/
def insertEntry (location : Location) (node : Node) :
    List (Location × Node) → List (Location × Node)
  | [] => [(location, node)]
  | entry :: entries =>
    match Location.compare location entry.1 with
    | .lt => (location, node) :: entry :: entries
    | .eq => (location, node) :: entries
    | .gt => entry :: insertEntry location node entries

/-- The tree with a node at a location. -/
def insert (tree : FileTree) (location : Location) (node : Node) : FileTree :=
  { tree with entries := insertEntry location node tree.entries }

/-- The tree without what the predicate picks. -/
def discard (tree : FileTree) (p : Location → Bool) : FileTree :=
  { tree with entries := tree.entries.filter fun entry => !p entry.1 }

/-! ## Following paths -/

/-- The pieces between the slashes of a path. -/
def rawPieces (path : Path) : List Text := Text.splitOn (· = '/') path.text

/-- Where following a path starts. -/
def start (tree : FileTree) (path : Path) : Location :=
  if path.isAbsolute then [] else tree.workingDirectory

/-- Names have at most 255 bytes. -/
def isTooLong (piece : Text) : Bool := 255 < Text.byteSize piece

/-- Why a path leads nowhere, whatever the tree: a path is not empty, has at most 4095 bytes and
holds no null character. -/
def pathFault? (path : Path) : Option FileFault :=
  if path.text.any (· = '\x00') then some .nulInPath
  else if path.text.isEmpty then some .notFound
  else if 4095 < Text.byteSize path.text then some .nameTooLong
  else none

/-- Follows one piece. -/
def step (tree : FileTree) (location : Location) (piece : Text) : Except FileFault Location :=
  match tree.node? location with
  | none => .error .notFound
  | some (.file _) => .error .notADirectory
  | some .directory =>
    if Path.isIdle piece then .ok location
    else if piece = ['.', '.'] then .ok location.dropLast
    else if (tree.node? (location ++ [piece])).isSome then .ok (location ++ [piece])
    else if isTooLong piece then .error .nameTooLong
    else .error .notFound

/-- Follows pieces one after the other. -/
def follow (tree : FileTree) : Location → List Text → Except FileFault Location
  | location, [] => .ok location
  | location, piece :: pieces => do tree.follow (← tree.step location piece) pieces

/-- The location that a path leads to. -/
def resolve (tree : FileTree) (path : Path) : Except FileFault Location :=
  match pathFault? path with
  | some fault => .error fault
  | none => tree.follow (tree.start path) (rawPieces path)

/-- The location that a path leads to, if something stands there. -/
def locate? (tree : FileTree) (path : Path) : Option Location := (tree.resolve path).toOption

/-- Whether a path leads to something. -/
def exists? (tree : FileTree) (path : Path) : Bool := (tree.locate? path).isSome

/-- Whether a path leads to a directory. -/
def isDirectory (tree : FileTree) (path : Path) : Bool :=
  (tree.locate? path).any fun location => tree.node? location = some .directory

/-- The components of a path after it was followed: those of the location that it leads to, from the
root on. A path that leads nowhere keeps its own. -/
def canonical (tree : FileTree) (path : Path) : List Component :=
  match tree.locate? path with
  | some location => .root :: location.map .name
  | none => path.components

/-- Whether two paths lead to one place. A path that leads nowhere counts by its components. -/
def samePlace (tree : FileTree) (p q : Path) : Bool := tree.canonical p = tree.canonical q

/-! ## Reading -/

/-- The content of a file. -/
def read (tree : FileTree) (path : Path) : Except FileFault Content := do
  match tree.node? (← tree.resolve path) with
  | some (.file content) => .ok content
  | some .directory => .error .isADirectory
  | none => .error .notFound

/-- The text of a file. -/
def readText (tree : FileTree) (path : Path) : Except FileFault Text := do
  match ← tree.read path with
  | .text t => .ok t
  | .bytes _ => .error .invalidData

/-- The number of files. -/
def fileCount (tree : FileTree) : Nat :=
  (tree.entries.filter fun entry => entry.2 ≠ .directory).length

/-- The files at and below a location in the order of a walk, each with the names that lead to it
from there. The directory to leave out is not entered. -/
def filesBelow (tree : FileTree) (location : Location) (leftOut : Option Location) :
    List Location :=
  tree.entries.filterMap fun (entry, node) =>
    let below := Location.isAtOrBelow location entry
    let kept := match leftOut with
      | none => true
      | some other =>
        !(Location.isAtOrBelow location other && Location.isAtOrBelow other entry && other ≠ entry)
    match node with
    | .directory => none
    | .file _ => if below && kept then some (entry.drop location.length) else none

/-! ## Writing -/

/-- The outcome of a change that can fail halfway: whether it was completed, and the tree that it
leaves. -/
abbrev Outcome := Except FileFault Unit × FileTree

/-- The outcome of a change that is made as a whole or not at all. -/
def settle (tree : FileTree) : Except FileFault FileTree → Outcome
  | .ok changed => (.ok (), changed)
  | .error fault => (.error fault, tree)

/-- The last piece of a path and the location of the directory that the pieces before it lead to.
Slashes at the end are dropped. -/
def splitLast (tree : FileTree) (path : Path) : Except FileFault (Location × Text) :=
  match pathFault? path, (rawPieces path).reverse.dropWhile List.isEmpty with
  | some fault, _ => .error fault
  | none, [] => .ok ([], ['.'])
  | none, last :: before => do
    let directory ← tree.follow (tree.start path) before.reverse
    match tree.node? directory with
    | some .directory => if isTooLong last then .error .nameTooLong else .ok (directory, last)
    | some (.file _) => .error .notADirectory
    | none => .error .notFound

/-- Whether a last piece names an entry of a directory. -/
def isEntryName (piece : Text) : Bool := !(piece = ['.'] || piece = ['.', '.'])

/-- Makes one directory. -/
def makeDirectory (tree : FileTree) (path : Path) : Except FileFault FileTree := do
  let (directory, last) ← tree.splitLast path
  if isEntryName last && (tree.node? (directory ++ [last])).isNone then
    .ok (tree.insert (directory ++ [last]) .directory)
  else .error .alreadyExists

/-- Makes one directory, unless it is there already. -/
def ensureDirectory (tree : FileTree) (path : Path) : Outcome :=
  match tree.makeDirectory path with
  | .ok made => (.ok (), made)
  | .error fault => if tree.isDirectory path then (.ok (), tree) else (.error fault, tree)

/-- Makes a directory and those that lead to it, no more than the bound says. -/
def makeDirectoriesUpTo : (bound : Nat) → FileTree → Path → Outcome
  | 0, tree, _ => (.error .notFound, tree)
  | bound + 1, tree, path =>
    if path.components.isEmpty then (.ok (), tree)
    else match tree.makeDirectory path, path.parent? with
      | .error .notFound, some parent =>
        match makeDirectoriesUpTo bound tree parent with
        | (.ok (), made) => made.ensureDirectory path
        | failed => failed
      | _, _ => tree.ensureDirectory path

/-- Makes a directory and those that lead to it. A directory that is there already stays, and those
that were made before a failure stay too. -/
def makeDirectories (tree : FileTree) (path : Path) : Outcome :=
  makeDirectoriesUpTo (path.text.length + 1) tree path

/-- Writes a file, instead of the one that was there. -/
def write (tree : FileTree) (path : Path) (content : Content) : Except FileFault FileTree := do
  let (directory, last) ← tree.splitLast path
  if path.text.getLast? = some '/' || !isEntryName last then .error .isADirectory
  else match tree.node? (directory ++ [last]) with
    | some .directory => .error .isADirectory
    | _ => .ok (tree.insert (directory ++ [last]) (.file content))

/-- Writes a file and makes the directories that lead to it. -/
def install (tree : FileTree) (path : Path) (content : Content) : Outcome :=
  match path.parent? with
  | none => tree.settle (tree.write path content)
  | some parent =>
    match tree.makeDirectories parent with
    | (.ok (), made) => made.settle (made.write path content)
    | failed => failed

/-- Copies a file. The target is emptied before the source is read, so a file that is copied onto
itself is left empty. -/
def copy (tree : FileTree) (source target : Path) : Except FileFault FileTree :=
  if tree.isDirectory source then .error .notAFile
  else do
    let _ ← tree.read source
    let emptied ← tree.write target (.text [])
    emptied.write target (← emptied.read source)

/-- Removes what is in a directory and then the directory. For the second step the path is followed
once more: when it went through something that is gone now, the directory stays, and a path that
ends in dots is refused. -/
def removeDirectory (tree : FileTree) (path : Path) : Outcome :=
  match tree.resolve path with
  | .error fault => (.error fault, tree)
  | .ok location =>
    if tree.node? location = some .directory then
      let cleared := tree.discard fun entry =>
        Location.isAtOrBelow location entry && entry ≠ location
      match cleared.splitLast path with
      | .error .notFound => (.ok (), cleared)
      | .error fault => (.error fault, cleared)
      | .ok (_, ['.']) => (.error .invalidArgument, cleared)
      | .ok (_, ['.', '.']) => (.error .notEmpty, cleared)
      | .ok _ => (.ok (), cleared.discard (· = location))
    else (.error .notADirectory, tree)

/-- Everything below the working directory, by its names from there. -/
def listing (tree : FileTree) : List (Location × Node) :=
  tree.entries.filterMap fun (entry, node) =>
    if Location.isAtOrBelow tree.workingDirectory entry && entry ≠ tree.workingDirectory then
      some (entry.drop tree.workingDirectory.length, node)
    else none

end FileTree

end SourcePreprocessor
