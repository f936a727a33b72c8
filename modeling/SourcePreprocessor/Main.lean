import SourcePreprocessor.CommandLine

/-!
# The program

The program takes a picture of the working directory, runs the command line on it, and carries the
differences back. Everything that decides anything is in `runCommandLine`.

The picture shows what is in the working directory and nothing else. Sources and configuration files
outside it count as missing, whatever path names them, and what is written outside it is lost. A
symbolic link is shown as what it leads to, and permissions are not shown.
-/

namespace SourcePreprocessor

/-- The names that lead to a directory from the root. -/
def locationOf (path : String) : Location :=
  (Text.splitOn (· = '/') path.toList).filter fun name => !name.isEmpty

/-- The relative path of a location. -/
def relativePath (location : Location) : String := Text.string (Text.join ['/'] location)

/-- The bytes of a content. -/
def Content.toBytes : Content → ByteArray
  | .text t => t.string.toUTF8
  | .bytes b => ⟨b.toArray⟩

/-- Adds an entry of a directory, and what is below it, to a picture. -/
partial def gather (location : Location) (tree : FileTree) (entry : IO.FS.DirEntry) :
    IO FileTree := do
  let here := location ++ [entry.fileName.toList]
  if ← entry.path.isDir then
    (← entry.path.readDir).foldlM (gather here) (tree.insert here .directory)
  else
    let bytes ← IO.FS.readBinFile entry.path
    return tree.insert here (.file (.ofBytes bytes.toList))

/-- Takes a picture of the working directory. The directories that it is in are shown without what
else they hold. -/
def takePicture : IO FileTree := do
  let directory ← IO.currentDir
  let location := locationOf directory.toString
  (← directory.readDir).foldlM (gather location) (.empty location)

/-- Whether there is something of the same kind as a node. -/
def sameKind : Option Node → Node → Bool
  | some .directory, .directory => true
  | some (.file _), .file _ => true
  | _, _ => false

/-- Carries the differences between two pictures back to the working directory. What lies outside of
it is not in the listings. -/
def carryBack (before after : FileTree) : IO Unit := do
  let old := before.listing
  let new := after.listing
  for (location, node) in old.reverse do
    if !sameKind (new.lookup location) node then
      match node with
      | .directory => IO.FS.removeDir (relativePath location)
      | .file _ => IO.FS.removeFile (relativePath location)
  for (location, node) in new do
    if old.lookup location != some node then
      match node with
      | .directory => IO.FS.createDir (relativePath location)
      | .file content => IO.FS.writeBinFile (relativePath location) content.toBytes

end SourcePreprocessor

open SourcePreprocessor in
/-- Runs the program on what the working directory holds. -/
def main (arguments : List String) : IO UInt32 := do
  let before ← takePicture
  let (result, after) := runCommandLine (arguments.map String.toList) before
  carryBack before after
  IO.print result.output
  IO.eprint result.errors
  return UInt32.ofNat result.status
