import SourcePreprocessor.Diagnostic

/-!
# Log records and actions

While it works, the preprocessor leaves two traces: log records for the user, and the actions that
it handed to an extension. Both are kept in the order in which they happened. Records of all levels
are kept: the level that the user asks for decides in the end which of them are shown (`logLines`).
-/

namespace SourcePreprocessor

/-- How important a record is, the most important first. -/
inductive LogLevel where
  | warning
  | information
  | detail
  deriving DecidableEq, Repr

namespace LogLevel

/-- The place of a level in their order. -/
def rank : LogLevel → Nat
  | .warning => 0
  | .information => 1
  | .detail => 2

/-- The word for a level. -/
def name : LogLevel → String
  | .warning => "WARN"
  | .information => "INFO"
  | .detail => "DEBUG"

end LogLevel

/-- A record of the log. -/
structure LogRecord where
  level : LogLevel
  text : String
  deriving DecidableEq, Repr

/-- The record as a line. -/
def LogRecord.line (r : LogRecord) : String := "[" ++ r.level.name ++ "] " ++ r.text

/-- The lines of the records that are at least as important as the given level. -/
def logLines (level : LogLevel) (records : List LogRecord) : List String :=
  (records.filter fun r => r.level.rank ≤ level.rank).map LogRecord.line

/-- Values that a line handed to an extension. -/
structure Action where
  position : Position
  arguments : List Value
  deriving DecidableEq

/-- An extension answers each action with whether it succeeded. What it answers may depend on the
actions before it, which is all the state an extension has. -/
structure Extension where
  accepts : (earlier : List Action) → Action → Bool

/-- The extension that succeeds for its first `n` actions. -/
def Extension.acceptFirst (n : Nat) : Extension := ⟨fun earlier _ => earlier.length < n⟩

end SourcePreprocessor
