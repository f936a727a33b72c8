import SourcePreprocessor.Number.Shortest
import SourcePreprocessor.Text.Escape

/-!
# Values

The expression language has integers, floating point numbers, texts and booleans, and one value that
stands for what an extension could not resolve. A value is shown in two ways: as it is inserted into
text (`display`) and as an expression that evaluates to it (`literal`).
-/

namespace SourcePreprocessor

open Number (Binary32)

/-- A value of the expression language. -/
inductive Value where
  | int (n : Int64)
  | float (x : Binary32)
  | str (t : Text)
  | bool (b : Bool)
  /-- What an extension could not resolve: no operator or function takes it. -/
  | unresolved
  deriving DecidableEq

/-- The types of values, and `any` for a place that takes every resolved value. -/
inductive ValueType where
  | any
  | int
  | float
  | str
  | bool
  | unresolved
  deriving DecidableEq, Repr

namespace Value

/-- The type of a value. -/
def type : Value → ValueType
  | .int _ => .int
  | .float _ => .float
  | .str _ => .str
  | .bool _ => .bool
  | .unresolved => .unresolved

/-- The value itself, if it is resolved. -/
def resolved? : Value → Option Value
  | .unresolved => none
  | v => some v

/-- The integer of a value that is one. -/
def int? : Value → Option Int64
  | .int n => some n
  | _ => none

/-- The floating point number of a value that is one. -/
def float? : Value → Option Binary32
  | .float x => some x
  | _ => none

/-- The text of a value that is one. -/
def str? : Value → Option Text
  | .str t => some t
  | _ => none

/-- The boolean of a value that is one. -/
def bool? : Value → Option Bool
  | .bool b => some b
  | _ => none

/-- Nothing, for the value that is not resolved. -/
def unresolved? : Value → Option Unit
  | .unresolved => some ()
  | _ => none

end Value

namespace ValueType

/-- The name of a type in messages. -/
def name : ValueType → String
  | .any => "ANY"
  | .int => "INT"
  | .float => "FLOAT"
  | .str => "STR"
  | .bool => "BOOL"
  | .unresolved => "UNRESOLVED"

/-- What a place of the type receives. -/
abbrev Carrier : ValueType → Type
  | .any => Value
  | .int => Int64
  | .float => Binary32
  | .str => Text
  | .bool => Bool
  | .unresolved => Unit

/-- What a place of the type receives when it is given the value, if it takes it. -/
def receive? : (type : ValueType) → Value → Option type.Carrier
  | .any => Value.resolved?
  | .int => Value.int?
  | .float => Value.float?
  | .str => Value.str?
  | .bool => Value.bool?
  | .unresolved => Value.unresolved?

/-- Whether a place of the type takes the value. -/
def accepts (type : ValueType) (v : Value) : Bool := (type.receive? v).isSome

end ValueType

namespace Value

/-- The words for the two booleans. -/
def boolText (b : Bool) : Text := if b then "true".toList else "false".toList

/-- A floating point number with at least one digit after the point. -/
def floatText (x : Binary32) : Text :=
  if x.text.all fun c => c.isDigit || c = '-' then x.text ++ ".0".toList else x.text

/-- The value as it is inserted into text. -/
def display : Value → Text
  | .int n => Number.signedDecimal n.toInt
  | .float x => floatText x
  | .str t => t
  | .bool b => boolText b
  | .unresolved => "<unresolved>".toList

/-- An expression that evaluates to the value. The smallest integer, the infinities and the
not-a-number have no literal of their own and are computed. -/
def literal : Value → Text
  | .int n =>
    if n = Int64.minValue then "(-9223372036854775807 - 1)".toList
    else Number.signedDecimal n.toInt
  | .float .nan => "(0.0 / 0.0)".toList
  | .float (.infinite false) => "(1.0 / 0.0)".toList
  | .float (.infinite true) => "(-1.0 / 0.0)".toList
  | .float x => floatText x
  | .str t => Text.quote t
  | .bool b => boolText b
  | .unresolved => "<unresolved>".toList

end Value

/-- A type other than `any` takes exactly the values of that type, and `any` takes those that are
resolved. -/
theorem ValueType.accepts_iff (type : ValueType) (v : Value) :
    type.accepts v = true ↔ (type = .any ∧ v.type ≠ .unresolved) ∨ type = v.type := by
  unfold accepts receive?
  cases type <;> cases v <;>
    simp [Value.type, Value.resolved?, Value.int?, Value.float?, Value.str?, Value.bool?,
      Value.unresolved?]

end SourcePreprocessor
