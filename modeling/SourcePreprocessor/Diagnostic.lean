import SourcePreprocessor.Directive.Basic
import SourcePreprocessor.Expr.Error
import SourcePreprocessor.File.Path

/-!
# Diagnostics

Processing stops at the first failure. Its `Cause` says what went wrong, and the `Diagnostic` adds
where: the file, the line, the column, the text of the line, and the lines that included the file,
the outermost first.
-/

namespace SourcePreprocessor

/-- A misuse of directives. -/
inductive StructureError where
  | unknownDirective (text : Text)
  | unexpectedArgument (directive : Directive) (text : Text)
  | missingArgument (directive : Directive)
  | invalidSwitch (directive : Directive) (text : Text)
  | malformedAssignment (directive : Directive) (text : Text)
  | withoutIf (directive : Directive)
  | afterElse (directive : Directive)
  | unclosedBlock (directive : Directive) (line : Nat)
  | includeCycle (path : Path)
  deriving DecidableEq, Repr

def StructureError.message : StructureError → String
  | .unknownDirective text => "Unknown directive: " ++ text.string
  | .unexpectedArgument d text =>
    "Directive " ++ d.name.string ++ " takes no argument but found: " ++ text.string
  | .missingArgument d => "Directive " ++ d.name.string ++ " needs an argument"
  | .invalidSwitch d text =>
    "Directive " ++ d.name.string ++ " needs ending [+|-] but found '" ++ text.string ++ "'"
  | .malformedAssignment d text =>
    "Directive " ++ d.name.string ++ " expects name=expression but found: " ++ text.string
  | .withoutIf d => "Found " ++ d.name.string ++ " without if"
  | .afterElse d => "Found " ++ d.name.string ++ " after else"
  | .unclosedBlock d line =>
    "Block opened by " ++ d.name.string ++ " on line " ++ toString line ++ " is never closed"
  | .includeCycle path => "Include cycle through " ++ path.string

/-- Why an operation on files fails. -/
inductive FileFault where
  | notFound
  | alreadyExists
  | notADirectory
  | isADirectory
  | notEmpty
  | invalidArgument
  /-- A name, or the path as a whole, has too many bytes. -/
  | nameTooLong
  /-- The path holds the character that ends names for the system. -/
  | nulInPath
  /-- What should be copied is no file. -/
  | notAFile
  /-- The content is not UTF-8. -/
  | invalidData
  deriving DecidableEq, Repr

def FileFault.message : FileFault → String
  | .notFound => "No such file or directory (os error 2)"
  | .alreadyExists => "File exists (os error 17)"
  | .notADirectory => "Not a directory (os error 20)"
  | .isADirectory => "Is a directory (os error 21)"
  | .invalidArgument => "Invalid argument (os error 22)"
  | .nameTooLong => "File name too long (os error 36)"
  | .notEmpty => "Directory not empty (os error 39)"
  | .nulInPath => "file name contained an unexpected NUL byte"
  | .notAFile => "the source path is neither a regular file nor a symlink to a regular file"
  | .invalidData => "stream did not contain valid UTF-8"

/-- A failed operation on files. -/
inductive FileError where
  | plain (fault : FileFault)
  /-- A source directory cannot be walked at the given path. -/
  | walking (path : Path) (fault : FileFault)
  deriving DecidableEq, Repr

namespace FileError

def fault : FileError → FileFault
  | .plain fault => fault
  | .walking _ fault => fault

def message : FileError → String
  | .plain fault => fault.message
  | .walking path fault => "IO error for operation on " ++ path.string ++ ": " ++ fault.message

end FileError

/-- What stopped the processing. -/
inductive Cause where
  | expression (error : ExpressionError)
  | structural (error : StructureError)
  /-- A text that should have been `name=expression`. -/
  | definition (text : Text)
  | file (error : FileError)
  deriving DecidableEq

namespace Cause

/-- A failed parse as a cause. -/
def parse (e : ParseError) : Cause := .expression (.parse e)

/-- A failed evaluation as a cause. -/
def evaluation (e : EvaluationError) : Cause := .expression (.evaluation e)

def message : Cause → String
  | .expression e => e.message
  | .structural e => e.message
  | .definition text => "Expected name=expression but found: " ++ text.string
  | .file e => "I/O error: " ++ e.message

/-- The message of the error behind the cause, if there is one. -/
def source? : Cause → Option String
  | .expression e => some e.message
  | .structural e => some e.message
  | .definition _ => none
  | .file e => some e.message

/-- The column of the cause in a line whose expression starts at column `base`. -/
def column (cause : Cause) (base : Nat) : Nat :=
  match cause with
  | .expression e => match e.column? with
    | some column => base + column - 1
    | none => base
  | _ => base

end Cause

/-- A line of a file. -/
structure Position where
  file : Path
  line : Nat
  deriving DecidableEq, Repr

def Position.string (p : Position) : String := p.file.string ++ ":" ++ toString p.line

/-- A failure and where it happened. -/
structure Diagnostic where
  cause : Cause
  file : Option Path := none
  line : Option Nat := none
  column : Option Nat := none
  fragment : Option Text := none
  /-- The lines that included the file, the outermost first. -/
  includedFrom : List Position := []
  deriving DecidableEq

namespace Diagnostic

/-- A failure that belongs to a file as a whole. -/
def inFile (cause : Cause) (file : Path) : Diagnostic := { cause, file := some file }

/-- A failure at a line of a file. -/
def atLine (cause : Cause) (position : Position) : Diagnostic :=
  { cause, file := some position.file, line := some position.line }

/-- The place as it is written in front of the message. -/
def place (d : Diagnostic) : String :=
  match d.file with
  | none => ""
  | some file => " in " ++ file.string ++
    match d.line with
    | none => ""
    | some line => ":" ++ toString line ++
      match d.column with
      | none => ""
      | some column => ":" ++ toString column

def message (d : Diagnostic) : String :=
  "Error" ++ d.place ++ ": " ++ d.cause.message ++
    (match d.fragment with
      | none => ""
      | some fragment => "\n  --> " ++ fragment.string) ++
    String.join (d.includedFrom.reverse.map fun p => "\n  included from " ++ p.string)

end Diagnostic

end SourcePreprocessor
