import SourcePreprocessor.Expr.Value

/-!
# What can go wrong with an expression

An expression fails in one of three stages: its text is not made of lexemes, its lexemes are not an
expression, or it has no value. The first two are found at a column of the expression text, counted
from one. Each error is its cause; the wording stands in its `message`.
-/

namespace SourcePreprocessor

/-- Why some text is no lexeme. -/
inductive LexErrorKind where
  | unexpectedCharacter
  | unterminatedString
  | unknownEscape
  | malformedNumber
  | integerOverflow
  deriving DecidableEq, Repr

def LexErrorKind.message : LexErrorKind → String
  | .unexpectedCharacter => "Unexpected character"
  | .unterminatedString => "Unterminated string literal"
  | .unknownEscape => "Unknown escape sequence in string literal"
  | .malformedNumber => "Malformed numeric literal"
  | .integerOverflow => "Integer literal is too large"

/-- Text that is no lexeme, and where it stands. -/
structure LexError where
  kind : LexErrorKind
  fragment : Text
  column : Nat
  deriving DecidableEq, Repr

def LexError.message (e : LexError) : String :=
  e.kind.message ++ " at column " ++ toString e.column ++ ": " ++ e.fragment.string

/-- Why a text is not an expression. -/
inductive ParseError where
  | lex (error : LexError)
  | unexpectedToken (token : Text) (column : Nat)
  | missingOperand (column : Nat)
  | unbalancedParenthesis (column : Nat)
  | emptyArgument (column : Nat)
  | emptyExpression (column : Nat)
  | unexpectedComma (column : Nat)
  deriving DecidableEq, Repr

namespace ParseError

/-- The column that the error points at. -/
def column : ParseError → Nat
  | .lex e => e.column
  | .unexpectedToken _ column => column
  | .missingOperand column => column
  | .unbalancedParenthesis column => column
  | .emptyArgument column => column
  | .emptyExpression column => column
  | .unexpectedComma column => column

def message : ParseError → String
  | .lex e => e.message
  | .unexpectedToken token column =>
    "Unexpected token at column " ++ toString column ++ ": " ++ token.string
  | .missingOperand column => "Missing operand at column " ++ toString column
  | .unbalancedParenthesis column => "Unbalanced parenthesis at column " ++ toString column
  | .emptyArgument column => "Empty argument at column " ++ toString column
  | .emptyExpression column => "Expected an expression at column " ++ toString column
  | .unexpectedComma column =>
    "Unexpected comma at column " ++ toString column ++ ", only one expression is allowed"

end ParseError

/-- Why an expression has no value. -/
inductive EvaluationError where
  | unknownVariable (name : Text)
  | unknownFunction (name : Text)
  | wrongArgumentCount (name : Text) (expected found : Nat)
  | noMatchingSignature (name : Text) (types : List ValueType)
  | unresolvedOperand (name : Text)
  | divisionByZero
  | integerOverflow (operation : Text)
  | notAnInteger (x : Number.Binary32)
  | invalidNumber (text : Text)
  /-- An extension refused an action. -/
  | extensionFailed (arguments : List Value)
  /-- The processed text asked to stop. -/
  | userError (message : Text)
  deriving DecidableEq

def EvaluationError.message : EvaluationError → String
  | .unknownVariable name => "Unknown variable: " ++ name.string
  | .unknownFunction name => "Unknown function: " ++ name.string
  | .wrongArgumentCount name expected found =>
    "Function " ++ name.string ++ " takes " ++ toString expected ++ " argument(s) but " ++
      toString found ++ " were supplied"
  | .noMatchingSignature name types =>
    "No matching signature for " ++ name.string ++ "(" ++
      ", ".intercalate (types.map ValueType.name) ++ ")"
  | .unresolvedOperand name => "Unresolved value used as an argument of " ++ name.string
  | .divisionByZero => "Division by zero"
  | .integerOverflow operation => "Integer overflow in " ++ operation.string
  | .notAnInteger x => "Float " ++ Text.string x.text ++ " cannot be converted to an integer"
  | .invalidNumber text => "Not an integer: '" ++ text.string ++ "'"
  | .extensionFailed arguments =>
    "Action extension failed for arguments: " ++
      Text.string (Text.join ", ".toList (arguments.map Value.literal))
  | .userError message => message.string

/-- A value of one type stands where another is needed. -/
structure TypeMismatch where
  expected : ValueType
  found : ValueType
  deriving DecidableEq, Repr

def TypeMismatch.message (e : TypeMismatch) : String :=
  "Type mismatch: expected " ++ e.expected.name ++ " but found " ++ e.found.name

/-- Why an expression did not give a value of the type that was asked for. -/
inductive ExpressionError where
  | parse (error : ParseError)
  | mismatch (error : TypeMismatch)
  | evaluation (error : EvaluationError)
  deriving DecidableEq

namespace ExpressionError

/-- The column of the expression text that the error points at; none once it was parsed. -/
def column? : ExpressionError → Option Nat
  | .parse e => some e.column
  | .mismatch _ => none
  | .evaluation _ => none

def message : ExpressionError → String
  | .parse e => e.message
  | .mismatch e => e.message
  | .evaluation e => e.message

end ExpressionError

namespace Value

/-- The value as an integer; a floating point number loses its fraction. -/
def toInteger : Value → Except ExpressionError Int64
  | .int n => .ok n
  | .float x =>
    match x.truncate? with
    | some n => .ok n
    | none => .error (.evaluation (.notAnInteger x))
  | v => .error (.mismatch ⟨.int, v.type⟩)

/-- The value as a floating point number; an integer is rounded to the nearest one. -/
def toFloat : Value → Except ExpressionError Number.Binary32
  | .float x => .ok x
  | .int n => .ok (.ofInt n.toInt)
  | v => .error (.mismatch ⟨.float, v.type⟩)

/-- The value as a text, which only texts are. -/
def toText : Value → Except ExpressionError Text
  | .str t => .ok t
  | v => .error (.mismatch ⟨.str, v.type⟩)

/-- The value as a boolean, which only booleans are. -/
def toBool : Value → Except ExpressionError Bool
  | .bool b => .ok b
  | v => .error (.mismatch ⟨.bool, v.type⟩)

end Value

end SourcePreprocessor
