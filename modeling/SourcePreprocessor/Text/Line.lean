import SourcePreprocessor.Text.Blank

/-!
# Lines and their terminators

A text is cut into lines at line feeds. A carriage return right before the line feed belongs to the
terminator; one anywhere else is a character of the line. The last line has no terminator when the
text does not end in a line feed, and the empty text has no lines.

Main statement: `splitLines` loses nothing, `joinLines (splitLines t) = t`.
-/

namespace SourcePreprocessor.Text

/-- What ends a line. -/
inductive Terminator where
  | none
  | lineFeed
  | returnLineFeed
  deriving DecidableEq, Repr

/-- The characters of a terminator. -/
def Terminator.text : Terminator → Text
  | .none => []
  | .lineFeed => ['\n']
  | .returnLineFeed => ['\r', '\n']

/-- A line and what ends it. -/
structure Line where
  content : Text
  terminator : Terminator
  deriving DecidableEq, Repr

/-- The line as it stands in its text. -/
def Line.text (line : Line) : Text := line.content ++ line.terminator.text

/-- The lines of `current` (reversed, holding no line feed) followed by the given text. -/
def linesFrom (current : Text) : Text → List Line
  | [] => if current.isEmpty then [] else [⟨current.reverse, .none⟩]
  | '\n' :: rest => ⟨current.reverse, .lineFeed⟩ :: linesFrom [] rest
  | '\r' :: '\n' :: rest => ⟨current.reverse, .returnLineFeed⟩ :: linesFrom [] rest
  | c :: rest => linesFrom (c :: current) rest

/-- The lines of a text, each with its terminator. -/
def splitLines (t : Text) : List Line := linesFrom [] t

/-- The contents of the lines of a text. -/
def lines (t : Text) : List Text := (splitLines t).map Line.content

/-- The text that has the given lines. -/
def joinLines (ls : List Line) : Text := ls.flatMap Line.text

/-- The text with every line trimmed and the empty ones left out, one line feed between each two. -/
def trimLines (t : Text) : Text :=
  join ['\n'] (((lines t).map trim).filter fun line => !line.isEmpty)

theorem joinLines_linesFrom (current t : Text) :
    joinLines (linesFrom current t) = current.reverse ++ t := by
  fun_induction linesFrom current t with
  | case1 current h => simp [joinLines, List.isEmpty_iff.1 h]
  | case2 current h => simp [joinLines, Line.text, Terminator.text]
  | case3 current rest ih =>
    simp only [joinLines, List.flatMap_cons] at ih ⊢
    simp [ih, Line.text, Terminator.text]
  | case4 current rest ih =>
    simp only [joinLines, List.flatMap_cons] at ih ⊢
    simp [ih, Line.text, Terminator.text]
  | case5 current c rest _ _ ih => simp [ih]

/-- Cutting into lines loses nothing. -/
theorem joinLines_splitLines (t : Text) : joinLines (splitLines t) = t := by
  simpa [splitLines] using joinLines_linesFrom [] t

end SourcePreprocessor.Text
