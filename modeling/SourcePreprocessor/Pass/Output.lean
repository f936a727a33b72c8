import SourcePreprocessor.Block
import SourcePreprocessor.Settings
import SourcePreprocessor.Table
import SourcePreprocessor.Text.Line

/-!
# The output of a file

Output lines go to one of three sections, which are written one after the other: the opening
section, the main one and the closing one. A file and the files it includes share one state: the
open blocks, the section that receives lines, the variables of the file and the lines so far.
-/

namespace SourcePreprocessor

/-- The sections of the output. -/
inductive Section where
  | opening
  | main
  | closing
  deriving DecidableEq, Repr

/-- The state of a file and the files it includes. -/
structure FileState where
  blocks : BlockStack := .empty
  /-- The section that receives lines. -/
  target : Section := .main
  locals : Table := .empty
  opening : Array Text := #[]
  main : Array Text := #[]
  closing : Array Text := #[]
  deriving DecidableEq

namespace FileState

/-- Adds a line to the section that receives lines. -/
def emit (s : FileState) (line : Text) : FileState :=
  match s.target with
  | .opening => { s with opening := s.opening.push line }
  | .main => { s with main := s.main.push line }
  | .closing => { s with closing := s.closing.push line }

/-- All lines, in the order in which they are written. -/
def lines (s : FileState) : List Text := s.opening.toList ++ s.main.toList ++ s.closing.toList

end FileState

/-- What ends the last line of a text. -/
def lastTerminator (t : Text) : Text.Terminator :=
  match (Text.splitLines t).getLast? with
  | some line => line.terminator
  | none => .none

/-- The text of output lines. Every line gets the line end of the settings, except that the last one
can be asked to end as the input does. -/
def renderOutput (settings : Settings) (input : Text) (lines : List Text) : Text :=
  if settings.keepLastEnd then
    if lines.isEmpty then [] else Text.join settings.lineEnd lines ++ (lastTerminator input).text
  else lines.flatMap (· ++ settings.lineEnd)

end SourcePreprocessor
