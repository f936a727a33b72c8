import SourcePreprocessor.Expr.Token

/-!
# Expressions

An expression is a literal, a reference to a variable, a call of a function, or an operator with its
one or two operands. References, calls and operators remember the column they were read at.

An expression is printed with the parentheses its priorities need and no others: an operand on the
left may have the priority of its operator, one on the right must have a higher one, because chains
of one priority associate to the left.

An operator stands with exactly the operands that it takes. An expression with another number of
them cannot be built, so nothing counts them later.
-/

namespace SourcePreprocessor

/-- How tightly an expression holds together, from the loosest to the tightest. -/
inductive Priority where
  | logical
  | comparison
  | additive
  | multiplicative
  | unary
  | value
  deriving DecidableEq, Repr

/-- The place of a priority in their order. -/
def Priority.rank : Priority → Nat
  | .logical => 0
  | .comparison => 1
  | .additive => 2
  | .multiplicative => 3
  | .unary => 4
  | .value => 5

instance : LT Priority := ⟨fun p q => p.rank < q.rank⟩

instance : LE Priority := ⟨fun p q => p.rank ≤ q.rank⟩

instance (p q : Priority) : Decidable (p < q) := inferInstanceAs (Decidable (p.rank < q.rank))

instance (p q : Priority) : Decidable (p ≤ q) := inferInstanceAs (Decidable (p.rank ≤ q.rank))

/-- The operators with one operand. -/
inductive UnaryOperator where
  | not
  | negate
  deriving DecidableEq, Repr

/-- The operators with two operands. -/
inductive BinaryOperator where
  | add
  | sub
  | mul
  | div
  | mod
  | equal
  | notEqual
  | less
  | greater
  | lessEqual
  | greaterEqual
  | and
  | or
  | xor
  deriving DecidableEq, Repr

/-- The symbol of a unary operator. -/
def UnaryOperator.symbol : UnaryOperator → Symbol
  | .not => .bang
  | .negate => .minus

namespace BinaryOperator

/-- The symbol of a binary operator. -/
def symbol : BinaryOperator → Symbol
  | .add => .plus
  | .sub => .minus
  | .mul => .star
  | .div => .slash
  | .mod => .percent
  | .equal => .equalEqual
  | .notEqual => .bangEqual
  | .less => .less
  | .greater => .greater
  | .lessEqual => .lessEqual
  | .greaterEqual => .greaterEqual
  | .and => .andAnd
  | .or => .orOr
  | .xor => .caret

/-- The priority of a binary operator. -/
def priority : BinaryOperator → Priority
  | .add | .sub => .additive
  | .mul | .div | .mod => .multiplicative
  | .equal | .notEqual | .less | .greater | .lessEqual | .greaterEqual => .comparison
  | .and | .or | .xor => .logical

end BinaryOperator

/-- The unary operator that a symbol denotes before an operand. -/
def Symbol.unary? : Symbol → Option UnaryOperator
  | .bang => some .not
  | .minus => some .negate
  | _ => none

/-- The binary operator that a symbol denotes between two operands. -/
def Symbol.binary? : Symbol → Option BinaryOperator
  | .plus => some .add
  | .minus => some .sub
  | .star => some .mul
  | .slash => some .div
  | .percent => some .mod
  | .equalEqual => some .equal
  | .bangEqual => some .notEqual
  | .less => some .less
  | .greater => some .greater
  | .lessEqual => some .lessEqual
  | .greaterEqual => some .greaterEqual
  | .andAnd => some .and
  | .orOr => some .or
  | .caret => some .xor
  | _ => none

/-- A symbol denotes a binary operator exactly when it is that operator's symbol. -/
theorem Symbol.binary?_eq_some_iff {s : Symbol} {op : BinaryOperator} :
    s.binary? = some op ↔ op.symbol = s := by
  cases s <;> cases op <;> decide

/-- A symbol denotes a unary operator exactly when it is that operator's symbol. -/
theorem Symbol.unary?_eq_some_iff {s : Symbol} {op : UnaryOperator} :
    s.unary? = some op ↔ op.symbol = s := by
  cases s <;> cases op <;> decide

/-- An expression. -/
inductive Item where
  | value (v : Value)
  | reference (name : Text) (column : Nat)
  | call (name : Text) (arguments : List Item) (column : Nat)
  | unary (op : UnaryOperator) (operand : Item) (column : Nat)
  | binary (op : BinaryOperator) (left right : Item) (column : Nat)

instance : Inhabited Item := ⟨.value .unresolved⟩

namespace Item

/-- The priority of an expression. -/
def priority : Item → Priority
  | .unary .. => .unary
  | .binary op .. => op.priority
  | _ => .value

/-- The text, in parentheses when asked to. -/
def parenthesize (wanted : Bool) (t : Text) : Text := if wanted then '(' :: t ++ [')'] else t

mutual

/-- The text of an expression. -/
def text : Item → Text
  | .value v => v.literal
  | .reference name _ => name
  | .call name arguments _ => name ++ '(' :: Text.join [',', ' '] (texts arguments) ++ [')']
  | .unary op operand _ => op.symbol.text ++ parenthesize (operand.priority < .unary) (text operand)
  | .binary op left right _ =>
    parenthesize (left.priority < op.priority) (text left) ++
      ' ' :: op.symbol.text ++ ' ' :: parenthesize (right.priority ≤ op.priority) (text right)

/-- The texts of several expressions. -/
def texts : List Item → List Text
  | [] => []
  | item :: items => text item :: texts items

end

end Item

/-- An expression and the text it was read from. -/
structure Expression where
  root : Item
  source : Text

/-- The text of an expression as it is printed, which need not be the text it was read from. -/
def Expression.text (e : Expression) : Text := e.root.text

end SourcePreprocessor
