import SourcePreprocessor.Expr.Item
import SourcePreprocessor.Expr.Signature
import SourcePreprocessor.Text.Order

/-!
# Operators

Arithmetic and comparison work on integers and on floating point numbers; an integer beside a
floating point number is first rounded to one. Addition joins texts, and anything with a text.
Comparison also orders texts by their characters, and equality compares booleans. The logical
operators combine booleans, or the bits of integers.
-/

namespace SourcePreprocessor

open Number (Binary32)

/-- An operator with one or two operands. -/
inductive Operator where
  | unary (op : UnaryOperator)
  | binary (op : BinaryOperator)
  deriving DecidableEq, Repr

/-- A rule for integers and one for floating point numbers as the four signatures of two
numbers. -/
def numeric (onInt : Int64 → Int64 → Evaluated) (onFloat : Binary32 → Binary32 → Value) :
    List Signature := [
  ⟨[.int, .int], fun (l, r, _) => onInt l r⟩,
  ⟨[.float, .float], fun (l, r, _) => .ok (onFloat l r)⟩,
  ⟨[.int, .float], fun (l, r, _) => .ok (onFloat (.ofInt l.toInt) r)⟩,
  ⟨[.float, .int], fun (l, r, _) => .ok (onFloat l (.ofInt r.toInt))⟩]

/-- An integer, or the failure that the operation with the given symbol overflows. -/
def fitting (symbol : Symbol) : Option Int64 → Evaluated
  | some n => .ok (.int n)
  | none => .error (.integerOverflow symbol.text)

/-- The signatures of an arithmetic operator. -/
def arithmetic (op : BinaryOperator) (onInt : Int64 → Int64 → Option Int64)
    (onFloat : Binary32 → Binary32 → Binary32) : List Signature :=
  numeric (fun l r => fitting op.symbol (onInt l r)) fun l r => .float (onFloat l r)

/-- The signatures of division and of its remainder. -/
def division (op : BinaryOperator) (onInt : Int64 → Int64 → Option Int64)
    (onFloat : Binary32 → Binary32 → Binary32) : List Signature :=
  numeric
    (fun l r => if r = 0 then .error .divisionByZero else fitting op.symbol (onInt l r))
    fun l r => .float (onFloat l r)

/-- Two values joined as texts. -/
def joined (l r : Value) : Evaluated := .ok (.str (l.display ++ r.display))

/-- The signatures of joining a text with anything. -/
def joining : List Signature := [
  ⟨[.str, .any], fun (l, r, _) => joined (.str l) r⟩,
  ⟨[.any, .str], fun (l, r, _) => joined l (.str r)⟩]

/-- The signatures of a comparison: `holds` tells which orders satisfy it, and `unordered` whether
a not-a-number does. -/
def comparison (holds : Ordering → Bool) (unordered : Bool) : List Signature :=
  numeric (fun l r => .ok (.bool (holds (compare l.toInt r.toInt))))
    (fun l r => .bool (((l.compare? r).map holds).getD unordered)) ++
  [⟨[.str, .str], fun (l, r, _) => .ok (.bool (holds (Text.compare l r)))⟩]

/-- The signature of comparing booleans. -/
def onBooleans (f : Bool → Bool → Bool) : List Signature :=
  [⟨[.bool, .bool], fun (l, r, _) => .ok (.bool (f l r))⟩]

/-- The signatures of a logical operator. -/
def logical (onBool : Bool → Bool → Bool) (onInt : Int64 → Int64 → Int64) : List Signature :=
  onBooleans onBool ++ [⟨[.int, .int], fun (l, r, _) => .ok (.int (onInt l r))⟩]

/-- The signatures of a binary operator. -/
def BinaryOperator.signatures : BinaryOperator → List Signature
  | .add => arithmetic .add Number.add? Binary32.add ++ joining
  | .sub => arithmetic .sub Number.sub? Binary32.sub
  | .mul => arithmetic .mul Number.mul? Binary32.mul
  | .div => division .div Number.div? Binary32.div
  | .mod => division .mod Number.rem? Binary32.rem
  | .equal => comparison (· == .eq) false ++ onBooleans (· == ·)
  | .notEqual => comparison (· != .eq) true ++ onBooleans (· != ·)
  | .less => comparison (· == .lt) false
  | .greater => comparison (· == .gt) false
  | .lessEqual => comparison (· != .gt) false
  | .greaterEqual => comparison (· != .lt) false
  | .and => logical (· && ·) (· &&& ·)
  | .or => logical (· || ·) (· ||| ·)
  | .xor => logical (· ^^ ·) (· ^^^ ·)

/-- The signatures of a unary operator. -/
def UnaryOperator.signatures : UnaryOperator → List Signature
  | .not => [
    ⟨[.bool], fun (b, _) => .ok (.bool !b)⟩,
    ⟨[.int], fun (n, _) => .ok (.int (~~~n))⟩]
  | .negate => [
    ⟨[.int], fun (n, _) => fitting UnaryOperator.negate.symbol (Number.neg? n)⟩,
    ⟨[.float], fun (x, _) => .ok (.float x.neg)⟩]

namespace Operator

/-- The symbol of an operator. -/
def symbol : Operator → Symbol
  | .unary op => op.symbol
  | .binary op => op.symbol

/-- The priority of an expression with the operator at its root. -/
def priority : Operator → Priority
  | .unary _ => .unary
  | .binary op => op.priority

/-- The number of operands. -/
def arity : Operator → Nat
  | .unary _ => 1
  | .binary _ => 2

/-- The signatures of an operator. -/
def signatures : Operator → List Signature
  | .unary op => op.signatures
  | .binary op => op.signatures

/-- What an operator gives for the values of its operands. -/
def apply (op : Operator) (vs : List Value) : Evaluated :=
  dispatch op.symbol.text op.signatures vs

end Operator

end SourcePreprocessor
