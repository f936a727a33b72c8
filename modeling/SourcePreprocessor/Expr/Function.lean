import SourcePreprocessor.Expr.Signature
import SourcePreprocessor.Text.Case

/-!
# Functions

The functions that an expression can call, by name. All signatures of a function have as many types
as it takes arguments, and a call checks the number of its arguments before their types.
-/

namespace SourcePreprocessor

open Number (Binary32)

/-- The functions. -/
inductive Function where
  | abs
  | round
  | str2int
  | strlen
  | issubstr
  | str2web
  | str2xml
  | str2csv
  | str2js
  | str2java
  | trimlines
  deriving DecidableEq, Repr

namespace Function

/-- All functions, in the order of their reference. -/
def all : List Function :=
  [.abs, .round, .str2int, .strlen, .issubstr, .str2web, .str2xml, .str2csv, .str2js, .str2java,
    .trimlines]

/-- The name that calls the function. -/
def name : Function → Text
  | .abs => "abs".toList
  | .round => "round".toList
  | .str2int => "str2int".toList
  | .strlen => "strlen".toList
  | .issubstr => "issubstr".toList
  | .str2web => "str2web".toList
  | .str2xml => "str2xml".toList
  | .str2csv => "str2csv".toList
  | .str2js => "str2js".toList
  | .str2java => "str2java".toList
  | .trimlines => "trimlines".toList

/-- The function of a name. -/
def ofName? (name : Text) : Option Function := all.find? fun f => f.name = name

/-- An integer, or the failure that the function overflows. -/
def fitting (f : Function) : Option Int64 → Evaluated
  | some n => .ok (.int n)
  | none => .error (.integerOverflow f.name)

/-- The nearest integer, the one further from zero of two. -/
def rounded (x : Binary32) : Evaluated :=
  match x.round.truncate? with
  | some n => .ok (.int n)
  | none => .error (.notAnInteger x)

/-- The integer that a text denotes between blanks. -/
def integerOf (t : Text) : Evaluated :=
  match Number.readInteger (Text.trim t) with
  | .ok n => .ok (.int n)
  | .error .outOfRange => .error (.integerOverflow str2int.name)
  | .error .malformed => .error (.invalidNumber t)

/-- Whether a text occurs in another when the case of letters is ignored. -/
def occursIn (part whole : Text) : Bool := Text.contains (Text.lower whole) (Text.lower part)

/-- A function of one text that gives a text. -/
def onText (f : Text → Text) : List Signature := [⟨[.str], fun (t, _) => .ok (.str (f t))⟩]

/-- The signatures of a function. -/
def signatures : Function → List Signature
  | .abs => [
    ⟨[.int], fun (n, _) => fitting .abs (Number.abs? n)⟩,
    ⟨[.float], fun (x, _) => .ok (.float x.abs)⟩]
  | .round => [
    ⟨[.float], fun (x, _) => rounded x⟩,
    ⟨[.int], fun (n, _) => .ok (.int n)⟩]
  | .str2int => [⟨[.str], fun (t, _) => integerOf t⟩]
  | .strlen => [⟨[.str], fun (t, _) => fitting .strlen (Number.narrow? t.length)⟩]
  | .issubstr => [⟨[.str, .str], fun (part, whole, _) => .ok (.bool (occursIn part whole))⟩]
  | .str2web => onText Text.escapeHtml
  | .str2xml => onText Text.escapeXml
  | .str2csv => onText Text.escapeCsv
  | .str2js => onText Text.escapeScript
  | .str2java => [⟨[.str, .bool], fun (t, split, _) =>
      .ok (.str (if split then Text.escapeJavaLines t else Text.escapeJava t))⟩]
  | .trimlines => onText Text.trimLines

/-- The number of arguments that the function takes. -/
def arity (f : Function) : Nat := (f.signatures.head?.map fun s => s.types.length).getD 0

end Function

/-- What a call of the function with the given name gives. -/
def callFunction (name : Text) (vs : List Value) : Evaluated :=
  match Function.ofName? name with
  | none => .error (.unknownFunction name)
  | some f =>
    if f.arity = vs.length then dispatch f.name f.signatures vs
    else .error (.wrongArgumentCount name f.arity vs.length)

end SourcePreprocessor
