import SourcePreprocessor.Definition
import SourcePreprocessor.Pass.Global
import SourcePreprocessor.Pass.Line

/-!
# Runs

A run processes all files below the source directories into the destination:

> load the configuration files; collect the files; scan every file that is processed; evaluate the
> conditions that leave files out; prepare the destination; process and write the files; copy the
> others.

The variables are shared by all files and go from one step to the next. Nothing is written before
all files were scanned and all conditions evaluated, and the first failure stops the run.

A run changes a `World`, and a failure leaves the world as it is at that point. The log and the
actions that were handed on are part of that world. The summary counts the files that were left out
at the end, as those that were found and not processed. To count each of them where it is passed
over gives the same number.
-/

namespace SourcePreprocessor

/-- What a run changes. -/
structure World where
  globals : Table
  files : FileTree
  /-- The actions that the extension received. -/
  actions : List Action
  log : List LogRecord

/-- A step of a run. -/
abbrev Run := ExceptT Diagnostic (StateM World)

/-- What a run does and whom it hands actions to. -/
structure Preprocessor where
  settings : Settings
  extension : Option Extension

/-- What a run did with the files. -/
structure Summary where
  processed : Nat
  excluded : Nat
  copied : Nat
  deriving DecidableEq, Repr

/-- A file below a source directory: its path, and its path seen from that directory. -/
structure SourceFile where
  path : Path
  relative : Path
  deriving DecidableEq, Repr

namespace Run

/-- A result as a step that changes nothing. -/
def ofExcept {α : Type} (result : Except Diagnostic α) : Run α := ExceptT.mk (pure result)

/-- Adds a record to the log. -/
def note (level : LogLevel) (text : String) : Run Unit :=
  modify fun w => { w with log := w.log ++ [⟨level, text⟩] }

/-- The result of an operation on files; a failure belongs to the given path. -/
def ofFiles {α : Type} (path : Path) (result : Except FileFault α) : Run α :=
  ofExcept (result.mapError fun fault => .inFile (.file (.plain fault)) path)

/-- Changes the files, also when the change fails; a failure belongs to the given path. -/
def changeFiles (path : Path) (change : FileTree → FileTree.Outcome) : Run Unit := do
  let (result, files) := change (← get).files
  modify fun w => { w with files }
  ofFiles path result

/-- The text of a file. -/
def readText (path : Path) : Run Text := do
  ofFiles path ((← get).files.readText path)

end Run

/-- Defines a variable of the run as the command line does. -/
def define (definition : Text) : Run Unit := do
  let w ← get
  match (Definitions.mk w.globals w.log).add definition ⟨.ofString "<command line>", 0⟩ with
  | .ok ds => set { w with globals := ds.globals, log := ds.log }
  | .error cause => throw { cause, fragment := some definition }

/-- Loads a configuration file whose text is given. -/
def loadConfigurationText (file : Path) (t : Text) : Run Unit := do
  let w ← get
  let (result, ds) := (Definitions.mk w.globals w.log).addFile file t
  set { w with globals := ds.globals, log := ds.log }
  Run.ofExcept result

/-- Loads configuration files one after the other. -/
def loadConfiguration : List Path → Run Unit
  | [] => return
  | file :: files => do
    Run.note .detail ("Loading configuration " ++ file.string)
    loadConfigurationText file (← Run.readText file)
    loadConfiguration files

namespace Preprocessor

/-! ## The passes over one file -/

/-- Runs the global pass over a file. -/
def scan (p : Preprocessor) (file : Path) (t : Text) : Run (List Exclusion) := do
  let w ← get
  let (result, s) := scanFile p.settings.marker file t w.globals
  set { w with globals := s.globals, log := w.log ++ s.log }
  Run.ofExcept (result.map fun _ => s.exclusions)

/-- Runs the line pass over a file and gives its output. -/
def process (p : Preprocessor) (file : Path) (t : Text) : Run Text := do
  let w ← get
  let env : Environment := ⟨p.settings.marker, w.files, p.extension⟩
  let (result, m) := processFile env p.settings file t ⟨{}, w.globals, w.actions, w.log⟩
  set { w with globals := m.globals, actions := m.actions, log := m.log }
  Run.ofExcept result

/-! ## Collecting files -/

/-- The files at and below a source directory, without those below the destination. -/
def filesOf (files : FileTree) (destination : Option Location) (source : Path) :
    Except Diagnostic (List SourceFile) :=
  match files.resolve source with
  | .error fault => .error (.inFile (.file (.walking source fault)) source)
  | .ok location => .ok ((files.filesBelow location destination).map fun names =>
      ⟨names.foldl Path.child source, ⟨Text.join ['/'] names⟩⟩)

/-- The files of all source directories, one directory after the other. -/
def collectFrom (files : FileTree) (destination : Option Location) :
    List Path → Except Diagnostic (List SourceFile)
  | [] => .ok []
  | source :: sources => do
    let first ← filesOf files destination source
    let others ← collectFrom files destination sources
    return first ++ others

/-- The files that a run finds. -/
def collect (p : Preprocessor) (files : FileTree) : Except Diagnostic (List SourceFile) :=
  collectFrom files (files.locate? p.settings.destination) p.settings.sources

/-- The files with the given handling. -/
def withHandling (p : Preprocessor) (handling : Handling) (found : List SourceFile) :
    List SourceFile :=
  found.filter fun file => p.settings.handling file.path = handling

/-- Records the files that are left out. -/
def noteSkipped : List SourceFile → Run Unit
  | [] => return
  | file :: files => do
    Run.note .detail ("Skipping " ++ file.path.string)
    noteSkipped files

/-! ## The passes over all files -/

/-- Reads and scans files one after the other. Gives their texts and their exclusions. -/
def scanAll (p : Preprocessor) : List SourceFile → Run (List (SourceFile × Text) × List Exclusion)
  | [] => return ([], [])
  | file :: files => do
    let t ← Run.readText file.path
    let exclusions ← p.scan file.path t
    let (texts, others) ← p.scanAll files
    return ((file, t) :: texts, exclusions ++ others)

/-- The files whose exclusions hold, each path once. -/
def excludedFiles : List Exclusion → (excluded : List Path) → Run (List Path)
  | [], excluded => return excluded
  | exclusion :: exclusions, excluded => do
    if ← Run.ofExcept (exclusion.holds (← get).globals) then
      let file := exclusion.position.file
      Run.note .information ("Excluding " ++ file.string ++ " (excludeif at line " ++
        toString exclusion.position.line ++ ")")
      excludedFiles exclusions (if excluded.any file.same then excluded else excluded ++ [file])
    else excludedFiles exclusions excluded

/-- Makes the destination ready. -/
def prepareDestination (p : Preprocessor) : Run Unit := do
  if p.settings.dryRun then return
  else
    let destination := p.settings.destination
    if p.settings.clear && (← get).files.exists? destination then
      Run.note .information ("Clearing " ++ destination.string)
      Run.changeFiles destination (·.removeDirectory destination)
    Run.changeFiles destination (·.makeDirectories destination)

/-- The path of a file's output, whose directory is made. -/
def outputPath (p : Preprocessor) (file : SourceFile) : Run Path := do
  let target := p.settings.destination.join file.relative
  match target.parent? with
  | none => return target
  | some parent => do
    Run.changeFiles parent (·.makeDirectories parent)
    return target

/-- Writes the output of a file. -/
def writeOutput (p : Preprocessor) (file : SourceFile) (output : Text) : Run Unit := do
  if p.settings.dryRun then return
  else
    let target ← p.outputPath file
    Run.note .detail ("Writing " ++ target.string)
    Run.changeFiles target fun files => files.settle (files.write target (.text output))

/-- Copies a file. -/
def copyFile (p : Preprocessor) (file : SourceFile) : Run Unit := do
  if p.settings.dryRun then return
  else
    let target ← p.outputPath file
    Run.note .detail ("Copying " ++ file.path.string ++ " to " ++ target.string)
    Run.changeFiles file.path fun files => files.settle (files.copy file.path target)

/-- Processes and writes the files that are not excluded, one after the other. Gives how many there
were. -/
def processAll (p : Preprocessor) (excluded : List Path) : List (SourceFile × Text) → Run Nat
  | [] => return 0
  | (file, t) :: files => do
    if excluded.any file.path.same then p.processAll excluded files
    else
      let output ← p.process file.path t
      p.writeOutput file output
      return (← p.processAll excluded files) + 1

/-- Copies files one after the other. -/
def copyAll (p : Preprocessor) : List SourceFile → Run Unit
  | [] => return
  | file :: files => do
    p.copyFile file
    p.copyAll files

/-- Processes all files below the source directories into the destination. -/
def run (p : Preprocessor) : Run Summary := do
  loadConfiguration p.settings.configurationFiles
  let found ← Run.ofExcept (p.collect (← get).files)
  let skipped := p.withHandling .exclude found
  let sources := p.withHandling .process found
  let copies := p.withHandling .copy found
  noteSkipped skipped
  Run.note .information ("Global pass over " ++ toString sources.length ++ " files")
  let (texts, exclusions) ← p.scanAll sources
  let excluded ← excludedFiles exclusions []
  p.prepareDestination
  Run.note .information
    ("Line pass over " ++ toString (sources.length - excluded.length) ++ " files")
  let processed ← p.processAll excluded texts
  p.copyAll copies
  let summary : Summary :=
    ⟨processed, skipped.length + (sources.length - processed), copies.length⟩
  Run.note .information ("Done: " ++ toString summary.processed ++ " processed, " ++
    toString summary.copied ++ " copied, " ++ toString summary.excluded ++ " excluded")
  return summary

end Preprocessor

/-- Whether one of the exclusions holds, as far as the first that does. -/
def anyHolds (globals : Table) : List Exclusion → Except Diagnostic Bool
  | [] => .ok false
  | exclusion :: exclusions => do
    if ← exclusion.holds globals then return true else anyHolds globals exclusions

/-- The output of a text on its own, with the settings that a run has by default and no files. It is
empty when the text excludes itself. -/
def preprocessText (t : Text) : Except Diagnostic Text :=
  let p : Preprocessor := ⟨{}, none⟩
  let file : Path := .ofString "input.txt"
  let step : Run Text := do
    let exclusions ← p.scan file t
    if ← Run.ofExcept (anyHolds (← get).globals exclusions) then return []
    else p.process file t
  (step.run.run ⟨.empty, .empty [], [], []⟩).1

end SourcePreprocessor
