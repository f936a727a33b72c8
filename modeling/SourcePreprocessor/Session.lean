import SourcePreprocessor.Run

/-!
# Sessions

A session is a preprocessor together with the world it works on. Its steps can be taken one at a
time and in any order; a step that fails leaves the session as far as it got, and the next one goes
on from there.
-/

namespace SourcePreprocessor

/-- A preprocessor and the world it works on. -/
structure Session where
  preprocessor : Preprocessor
  world : World

namespace Session

/-- A session without variables. -/
def start (settings : Settings) (extension : Option Extension) (files : FileTree) : Session :=
  ⟨⟨settings, extension⟩, ⟨.empty, files, [], []⟩⟩

/-- The value of a variable of the run. -/
def getGlobal? (s : Session) (name : Text) : Option Value := s.world.globals.get? name

/-- Defines a variable of the run. -/
def setGlobal (s : Session) (name : Text) (v : Value) : Session :=
  { s with world := { s.world with globals := s.world.globals.set name v } }

/-- Replaces or removes the extension. A new one has received no actions yet. -/
def setExtension (s : Session) (extension : Option Extension) : Session :=
  { preprocessor := { s.preprocessor with extension }, world := { s.world with actions := [] } }

/-- Changes the files behind the preprocessor's back. -/
def setFiles (s : Session) (files : FileTree) : Session :=
  { s with world := { s.world with files } }

/-- The session with an empty log. -/
def clearLog (s : Session) : Session := { s with world := { s.world with log := [] } }

/-- Takes a step. -/
def perform {α : Type} (s : Session) (step : Preprocessor → Run α) :
    Except Diagnostic α × Session :=
  let (result, world) := (step s.preprocessor).run.run s.world
  (result, { s with world })

end Session

end SourcePreprocessor
