import SourcePreprocessor.Diagnostic

/-!
# Settings

What a run is asked to do: where the sources are and where the output goes, which files are
processed, copied or left out by their extension, and how directive lines and line ends are written.
-/

namespace SourcePreprocessor

/-- The settings of a run. -/
structure Settings where
  /-- The directories whose files are processed or copied. -/
  sources : List Path := [.ofString "."]
  /-- The directory that the output tree is written to. -/
  destination : Path := .ofString "preprocessed"
  /-- The extensions of files that are processed, in lower case. -/
  extensions : List Text := ["java".toList, "txt".toList, "htm".toList, "html".toList]
  /-- The extensions of files that are neither processed nor copied, in lower case. -/
  excludedExtensions : List Text := ["xml".toList]
  /-- The text that starts a directive line. -/
  marker : Text := "//#".toList
  /-- What ends an output line. -/
  lineEnd : Text := ['\n']
  /-- Whether the output ends as the input ends. -/
  keepLastEnd : Bool := false
  /-- Whether the destination is removed before the output is written. -/
  clear : Bool := false
  /-- Whether nothing is written. -/
  dryRun : Bool := false
  /-- The files with definitions that are loaded first. -/
  configurationFiles : List Path := []

/-- What happens to a file, by its extension. -/
inductive Handling where
  | process
  | copy
  | exclude
  deriving DecidableEq, Repr

namespace Settings

/-- Whether the file's extension, in lower case, is one of the given ones. -/
def hasExtension (file : Path) (extensions : List Text) : Bool :=
  match file.extension? with
  | some extension => extensions.contains (Text.lower extension)
  | none => false

/-- Whether a file has the extension of a file that is processed. -/
def isProcessed (s : Settings) (file : Path) : Bool := hasExtension file s.extensions

/-- Whether a file has the extension of a file that is left out. -/
def isExcluded (s : Settings) (file : Path) : Bool := hasExtension file s.excludedExtensions

/-- What happens to a file: leaving out comes before processing, and the rest is copied. -/
def handling (s : Settings) (file : Path) : Handling :=
  if s.isExcluded file then .exclude else if s.isProcessed file then .process else .copy

/-- The extensions of a comma separated list, in lower case and without leading dots. -/
def readExtensions (t : Text) : List Text :=
  ((Text.splitOn (· = ',') t).map fun piece =>
    Text.lower ((Text.trim piece).dropWhile (· = '.'))).filter fun extension => !extension.isEmpty

end Settings

end SourcePreprocessor
