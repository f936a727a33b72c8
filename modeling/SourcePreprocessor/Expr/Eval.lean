import SourcePreprocessor.Expr.Function
import SourcePreprocessor.Expr.Operator
import SourcePreprocessor.Expr.Parser

/-!
# Evaluation

Evaluation is strict and goes from left to right: every operand and argument has a value before its
operator or function is applied, so no operator skips an operand, and the first failure is the
result. An expression fails with an `EvaluationError` and nothing else.
-/

namespace SourcePreprocessor

/-- What the variables stand for. Names are asked for in lower case. -/
abbrev Context := Text → Option Value

/-- The context without variables. -/
def Context.empty : Context := fun _ => none

namespace Item

mutual

/-- The value of an expression. -/
def eval (context : Context) : Item → Evaluated
  | .value v => .ok v
  | .reference name _ =>
    match context name with
    | some v => .ok v
    | none => .error (.unknownVariable name)
  | .call name arguments _ => do callFunction name (← evalAll context arguments)
  | .unary op operand _ => do (Operator.unary op).apply [← eval context operand]
  | .binary op left right _ => do
    let l ← eval context left
    let r ← eval context right
    (Operator.binary op).apply [l, r]

/-- The values of several expressions, from left to right. -/
def evalAll (context : Context) : List Item → Except EvaluationError (List Value)
  | [] => .ok []
  | item :: items => do
    let v ← eval context item
    let vs ← evalAll context items
    return v :: vs

end

end Item

/-- The value of an expression that was read. -/
def Expression.eval (e : Expression) (context : Context) : Except ExpressionError Value :=
  (e.root.eval context).mapError .evaluation

/-- The boolean that an expression stands for. -/
def Expression.condition (e : Expression) (context : Context) : Except ExpressionError Bool := do
  (← e.eval context).toBool

/-- The value of a text, with no variables. -/
def evaluate (source : Text) : Except ExpressionError Value := do
  (← (parse source).mapError .parse).eval .empty

end SourcePreprocessor
