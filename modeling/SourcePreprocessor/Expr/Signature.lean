import SourcePreprocessor.Expr.Error

/-!
# Signatures

An operator or function accepts one or more combinations of argument types, each with its own rule.
A rule receives its arguments already taken apart (`Arguments types`), so it cannot see a value of
another type, nor ask for an argument that is not there. Of several signatures the first that takes
the arguments decides.

So nothing is left to check when a rule is applied. Rules that take each argument out of a list and
convert it on their own, and could fail in doing so, never do (`Proofs.Expr.TypeSafety`).
-/

namespace SourcePreprocessor

/-- What a rule with the given argument types receives. -/
abbrev Arguments : List ValueType → Type
  | [] => Unit
  | type :: types => type.Carrier × Arguments types

/-- The values as arguments of the given types, if there are as many of them and each is taken. -/
def receiveAll? : (types : List ValueType) → List Value → Option (Arguments types)
  | [], [] => some ()
  | type :: types, v :: vs => do
    let first ← type.receive? v
    let others ← receiveAll? types vs
    return (first, others)
  | _, _ => none

/-- What an operator or function gives. -/
abbrev Evaluated := Except EvaluationError Value

/-- A combination of argument types and the rule for it. -/
structure Signature where
  types : List ValueType
  rule : Arguments types → Evaluated

/-- What the rule gives for the values, if the signature takes them. -/
def Signature.tryApply (s : Signature) (vs : List Value) : Option Evaluated :=
  (receiveAll? s.types vs).map s.rule

/-- What the first signature that takes the values gives. `name` is that of the operator or
function. -/
def dispatch (name : Text) (signatures : List Signature) (vs : List Value) : Evaluated :=
  if vs.contains .unresolved then .error (.unresolvedOperand name)
  else match signatures.findSome? (·.tryApply vs) with
    | some result => result
    | none => .error (.noMatchingSignature name (vs.map Value.type))

end SourcePreprocessor
