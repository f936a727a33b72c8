import SourcePreprocessor.Expr.Value

/-!
# Tokens

The tokens of the expression language are literals, names and symbols. No literal has a sign: a
minus before a number is a symbol of its own.
-/

namespace SourcePreprocessor

/-- The operators and punctuation of the expression language. -/
inductive Symbol where
  | plus
  | minus
  | star
  | slash
  | percent
  | equalEqual
  | bangEqual
  | lessEqual
  | greaterEqual
  | less
  | greater
  | andAnd
  | orOr
  | caret
  | bang
  | openParen
  | closeParen
  | comma
  deriving DecidableEq, Repr

/-- How a symbol is written. -/
def Symbol.text : Symbol → Text
  | .plus => ['+']
  | .minus => ['-']
  | .star => ['*']
  | .slash => ['/']
  | .percent => ['%']
  | .equalEqual => ['=', '=']
  | .bangEqual => ['!', '=']
  | .lessEqual => ['<', '=']
  | .greaterEqual => ['>', '=']
  | .less => ['<']
  | .greater => ['>']
  | .andAnd => ['&', '&']
  | .orOr => ['|', '|']
  | .caret => ['^']
  | .bang => ['!']
  | .openParen => ['(']
  | .closeParen => [')']
  | .comma => [',']

/-- A token. -/
inductive Token where
  | int (n : Int64)
  | float (x : Number.Binary32)
  /-- A text literal, its escapes already decoded. -/
  | str (t : Text)
  | bool (b : Bool)
  | name (t : Text)
  | symbol (s : Symbol)
  deriving DecidableEq

/-- The token as messages show it. -/
def Token.text : Token → Text
  | .int n => Number.signedDecimal n.toInt
  | .float x => x.text
  | .str t => '"' :: t ++ ['"']
  | .bool b => Value.boolText b
  | .name t => t
  | .symbol s => s.text

/-- A token and the column it starts at, counted from one. -/
structure Lexeme where
  token : Token
  column : Nat
  deriving DecidableEq

end SourcePreprocessor
