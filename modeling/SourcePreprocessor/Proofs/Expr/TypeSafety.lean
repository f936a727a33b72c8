import Mathlib.Data.List.Forall2
import SourcePreprocessor.Expr.Eval
import SourcePreprocessor.Proofs.Except

/-!
# Evaluation is type safe

The rules of `Signature` receive what they need already taken apart. Here is the evaluation without
that protection: a rule gets the list of values, asks for the value at a place, and turns it into an
integer, a number, a text or a boolean itself (`RawSignature`). Each of these steps can fail, with a
place that is not there or with a value of another type. What saves them is only that the signature
took the values before its rule was chosen:

> `Agrees`: on the values that a signature takes, the raw rule gives what the rule gives;
> `evalRaw_eq`: so the raw evaluation of every expression is its evaluation, and fails only as that
> does.

The value that stands for what is not resolved passes through no operator and no function, so it is
the value of an expression only when the expression is that value or a variable that holds it:

> `eval_typeSafe`: both together, for every expression and all variables.
-/

namespace SourcePreprocessor

open Number (Binary32)

/-- What can go wrong in a rule that asks for its arguments itself. -/
inductive RawFault where
  /-- There is no argument at the place. -/
  | missing (place : Nat)
  | failure (error : ExpressionError)

/-- What a raw rule gives. -/
abbrev RawEvaluated := Except RawFault Value

/-- The failure of a rule as a fault. -/
def Evaluated.raw (result : Evaluated) : RawEvaluated :=
  result.mapError fun e => .failure (.evaluation e)

/-- The argument at a place. -/
def argumentAt (vs : List Value) (place : Nat) : RawEvaluated :=
  match vs[place]? with
  | some v => .ok v
  | none => .error (.missing place)

def integerAt (vs : List Value) (place : Nat) : Except RawFault Int64 := do
  (← argumentAt vs place).toInteger.mapError .failure

def floatAt (vs : List Value) (place : Nat) : Except RawFault Binary32 := do
  (← argumentAt vs place).toFloat.mapError .failure

def textAt (vs : List Value) (place : Nat) : Except RawFault Text := do
  (← argumentAt vs place).toText.mapError .failure

def boolAt (vs : List Value) (place : Nat) : Except RawFault Bool := do
  (← argumentAt vs place).toBool.mapError .failure

/-- A combination of argument types and a rule that gets the values as they are. -/
structure RawSignature where
  types : List ValueType
  rule : List Value → RawEvaluated

/-- Whether the values are as many as the types and each is taken. -/
def RawSignature.accepts (s : RawSignature) (vs : List Value) : Bool :=
  s.types.length == vs.length && (s.types.zip vs).all fun (type, v) => type.accepts v

/-- What the first signature that accepts the values gives. -/
def dispatchRaw (name : Text) (signatures : List RawSignature) (vs : List Value) : RawEvaluated :=
  if vs.contains .unresolved then .error (.failure (.evaluation (.unresolvedOperand name)))
  else match signatures.find? (·.accepts vs) with
    | some s => s.rule vs
    | none => .error (.failure (.evaluation (.noMatchingSignature name (vs.map Value.type))))

/-! ## The raw rules -/

/-- A raw rule for two integers and one for two numbers of any kind, as the four signatures of two
numbers: the last two leave it to their rule to round an integer. -/
def rawNumeric (onInt : Int64 → Int64 → Evaluated) (onFloat : Binary32 → Binary32 → Value) :
    List RawSignature :=
  let integers (vs : List Value) : RawEvaluated := do
    (onInt (← integerAt vs 0) (← integerAt vs 1)).raw
  let numbers (vs : List Value) : RawEvaluated := do
    return onFloat (← floatAt vs 0) (← floatAt vs 1)
  [⟨[.int, .int], integers⟩, ⟨[.float, .float], numbers⟩, ⟨[.int, .float], numbers⟩,
    ⟨[.float, .int], numbers⟩]

def rawArithmetic (op : BinaryOperator) (onInt : Int64 → Int64 → Option Int64)
    (onFloat : Binary32 → Binary32 → Binary32) : List RawSignature :=
  rawNumeric (fun l r => fitting op.symbol (onInt l r)) fun l r => .float (onFloat l r)

def rawDivision (op : BinaryOperator) (onInt : Int64 → Int64 → Option Int64)
    (onFloat : Binary32 → Binary32 → Binary32) : List RawSignature :=
  rawNumeric
    (fun l r => if r = 0 then .error .divisionByZero else fitting op.symbol (onInt l r))
    fun l r => .float (onFloat l r)

def rawJoining : List RawSignature :=
  let join (vs : List Value) : RawEvaluated := do
    return .str ((← argumentAt vs 0).display ++ (← argumentAt vs 1).display)
  [⟨[.str, .any], join⟩, ⟨[.any, .str], join⟩]

def rawComparison (holds : Ordering → Bool) (unordered : Bool) : List RawSignature :=
  rawNumeric (fun l r => .ok (.bool (holds (compare l.toInt r.toInt))))
    (fun l r => .bool (((l.compare? r).map holds).getD unordered)) ++
  [⟨[.str, .str], fun vs => do
    return .bool (holds (Text.compare (← textAt vs 0) (← textAt vs 1)))⟩]

def rawOnBooleans (f : Bool → Bool → Bool) : List RawSignature :=
  [⟨[.bool, .bool], fun vs => do return .bool (f (← boolAt vs 0) (← boolAt vs 1))⟩]

def rawLogical (onBool : Bool → Bool → Bool) (onInt : Int64 → Int64 → Int64) : List RawSignature :=
  rawOnBooleans onBool ++
    [⟨[.int, .int], fun vs => do return .int (onInt (← integerAt vs 0) (← integerAt vs 1))⟩]

/-- The raw signatures of a binary operator. -/
def BinaryOperator.rawSignatures : BinaryOperator → List RawSignature
  | .add => rawArithmetic .add Number.add? Binary32.add ++ rawJoining
  | .sub => rawArithmetic .sub Number.sub? Binary32.sub
  | .mul => rawArithmetic .mul Number.mul? Binary32.mul
  | .div => rawDivision .div Number.div? Binary32.div
  | .mod => rawDivision .mod Number.rem? Binary32.rem
  | .equal => rawComparison (· == .eq) false ++ rawOnBooleans (· == ·)
  | .notEqual => rawComparison (· != .eq) true ++ rawOnBooleans (· != ·)
  | .less => rawComparison (· == .lt) false
  | .greater => rawComparison (· == .gt) false
  | .lessEqual => rawComparison (· != .gt) false
  | .greaterEqual => rawComparison (· != .lt) false
  | .and => rawLogical (· && ·) (· &&& ·)
  | .or => rawLogical (· || ·) (· ||| ·)
  | .xor => rawLogical (· ^^ ·) (· ^^^ ·)

/-- The raw signatures of a unary operator. -/
def UnaryOperator.rawSignatures : UnaryOperator → List RawSignature
  | .not => [
    ⟨[.bool], fun vs => do return .bool !(← boolAt vs 0)⟩,
    ⟨[.int], fun vs => do return .int (~~~(← integerAt vs 0))⟩]
  | .negate => [
    ⟨[.int], fun vs => do
      (fitting UnaryOperator.negate.symbol (Number.neg? (← integerAt vs 0))).raw⟩,
    ⟨[.float], fun vs => do return .float (← floatAt vs 0).neg⟩]

/-- The raw signatures of an operator. -/
def Operator.rawSignatures : Operator → List RawSignature
  | .unary op => op.rawSignatures
  | .binary op => op.rawSignatures

namespace Function

def rawOnText (f : Text → Text) : List RawSignature :=
  [⟨[.str], fun vs => do return .str (f (← textAt vs 0))⟩]

/-- The raw signatures of a function. -/
def rawSignatures : Function → List RawSignature
  | .abs => [
    ⟨[.int], fun vs => do (fitting .abs (Number.abs? (← integerAt vs 0))).raw⟩,
    ⟨[.float], fun vs => do return .float (← floatAt vs 0).abs⟩]
  | .round => [
    ⟨[.float], fun vs => do (rounded (← floatAt vs 0)).raw⟩,
    ⟨[.int], fun vs => argumentAt vs 0⟩]
  | .str2int => [⟨[.str], fun vs => do (integerOf (← textAt vs 0)).raw⟩]
  | .strlen => [⟨[.str], fun vs => do
      (fitting .strlen (Number.narrow? (← textAt vs 0).length)).raw⟩]
  | .issubstr => [⟨[.str, .str], fun vs => do
      return .bool (occursIn (← textAt vs 0) (← textAt vs 1))⟩]
  | .str2web => rawOnText Text.escapeHtml
  | .str2xml => rawOnText Text.escapeXml
  | .str2csv => rawOnText Text.escapeCsv
  | .str2js => rawOnText Text.escapeScript
  | .str2java => [⟨[.str, .bool], fun vs => do
      let t ← textAt vs 0
      return .str (if ← boolAt vs 1 then Text.escapeJavaLines t else Text.escapeJava t)⟩]
  | .trimlines => rawOnText Text.trimLines

/-- The number of arguments that the function takes. -/
def rawArity (f : Function) : Nat := (f.rawSignatures.head?.map fun s => s.types.length).getD 0

end Function

/-- What a raw call of the function with the given name gives. -/
def callFunctionRaw (name : Text) (vs : List Value) : RawEvaluated :=
  match Function.ofName? name with
  | none => .error (.failure (.evaluation (.unknownFunction name)))
  | some f =>
    if f.rawArity = vs.length then dispatchRaw f.name f.rawSignatures vs
    else .error (.failure (.evaluation (.wrongArgumentCount name f.rawArity vs.length)))

namespace Item

mutual

/-- The value of an expression by the raw rules. -/
def evalRaw (context : Context) : Item → RawEvaluated
  | .value v => .ok v
  | .reference name _ =>
    match context name with
    | some v => .ok v
    | none => .error (.failure (.evaluation (.unknownVariable name)))
  | .call name arguments _ => do callFunctionRaw name (← evalAllRaw context arguments)
  | .unary op operand _ => do
    dispatchRaw op.symbol.text (Operator.unary op).rawSignatures [← evalRaw context operand]
  | .binary op left right _ => do
    let l ← evalRaw context left
    let r ← evalRaw context right
    dispatchRaw op.symbol.text (Operator.binary op).rawSignatures [l, r]

/-- The values of several expressions by the raw rules, from left to right. -/
def evalAllRaw (context : Context) : List Item → Except RawFault (List Value)
  | [] => .ok []
  | item :: items => do
    let v ← evalRaw context item
    let vs ← evalAllRaw context items
    return v :: vs

end

end Item

/-! ## What a signature takes -/

/-- The value that is received as the given thing. -/
def ValueType.value : (type : ValueType) → type.Carrier → Value
  | .any, v => v
  | .int, n => .int n
  | .float, x => .float x
  | .str, t => .str t
  | .bool, b => .bool b
  | .unresolved, _ => .unresolved

theorem ValueType.eq_value_of_receive? {type : ValueType} {v : Value} {x : type.Carrier}
    (h : type.receive? v = some x) : v = type.value x := by
  cases type <;> cases v <;>
    simp_all [receive?, value, Value.resolved?, Value.int?, Value.float?, Value.str?, Value.bool?,
      Value.unresolved?]

/-- The values that are received as the given arguments. -/
def valuesOf : (types : List ValueType) → Arguments types → List Value
  | [], _ => []
  | type :: types, (first, others) => type.value first :: valuesOf types others

theorem eq_valuesOf_of_receiveAll? {types : List ValueType} {vs : List Value}
    {args : Arguments types} (h : receiveAll? types vs = some args) : vs = valuesOf types args := by
  induction types generalizing vs with
  | nil =>
    cases vs with
    | nil => rfl
    | cons v vs => nomatch h
  | cons type types ih =>
    cases vs with
    | nil => nomatch h
    | cons v vs =>
      simp only [receiveAll?, Option.bind_eq_bind, Option.bind_eq_some_iff] at h
      obtain ⟨first, hfirst, others, hothers, hargs⟩ := h
      obtain rfl := Option.some.inj hargs
      rw [valuesOf, ← ValueType.eq_value_of_receive? hfirst, ← ih hothers]

/-- A raw signature accepts exactly the values that the types take. -/
theorem RawSignature.accepts_iff (s : RawSignature) (vs : List Value) :
    s.accepts vs = (receiveAll? s.types vs).isSome := by
  obtain ⟨types, rule⟩ := s
  unfold accepts
  induction types generalizing vs with
  | nil => cases vs <;> simp [receiveAll?]
  | cons type types ih =>
    cases vs with
    | nil => simp [receiveAll?]
    | cons v vs =>
      have htail := ih vs
      simp only [receiveAll?, List.length_cons, List.zip_cons_cons, List.all_cons,
        ValueType.accepts] at htail ⊢
      cases hv : type.receive? v with
      | none => simp
      | some x =>
        cases hvs : receiveAll? types vs with
        | none => simpa [hvs] using htail
        | some xs => simpa [hvs] using htail

/-! ## The raw rules agree with the rules -/

/-- On the values that a signature takes, the raw rule gives what the rule gives. -/
structure Agrees (raw : RawSignature) (s : Signature) : Prop where
  types : raw.types = s.types
  rule : ∀ args, raw.rule (valuesOf s.types args) = (s.rule args).raw

/-- The same, for all the signatures of an operator or function. -/
abbrev AgreeAll (raws : List RawSignature) (signatures : List Signature) : Prop :=
  List.Forall₂ Agrees raws signatures

-- Once the values have the form that the types give them, both rules compute to the same.
theorem numeric_agree (onInt : Int64 → Int64 → Evaluated)
    (onFloat : Binary32 → Binary32 → Value) :
    AgreeAll (rawNumeric onInt onFloat) (numeric onInt onFloat) :=
  .cons ⟨rfl, fun _ => rfl⟩ <| .cons ⟨rfl, fun _ => rfl⟩ <|
    .cons ⟨rfl, fun _ => rfl⟩ <| .cons ⟨rfl, fun _ => rfl⟩ .nil

theorem joining_agree : AgreeAll rawJoining joining :=
  .cons ⟨rfl, fun _ => rfl⟩ <| .cons ⟨rfl, fun _ => rfl⟩ .nil

theorem comparison_agree (holds : Ordering → Bool) (unordered : Bool) :
    AgreeAll (rawComparison holds unordered) (comparison holds unordered) :=
  List.rel_append (numeric_agree _ _) (.cons ⟨rfl, fun _ => rfl⟩ .nil)

theorem onBooleans_agree (f : Bool → Bool → Bool) :
    AgreeAll (rawOnBooleans f) (onBooleans f) :=
  .cons ⟨rfl, fun _ => rfl⟩ .nil

theorem logical_agree (onBool : Bool → Bool → Bool) (onInt : Int64 → Int64 → Int64) :
    AgreeAll (rawLogical onBool onInt) (logical onBool onInt) :=
  List.rel_append (onBooleans_agree onBool) (.cons ⟨rfl, fun _ => rfl⟩ .nil)

theorem Operator.signatures_agree (op : Operator) : AgreeAll op.rawSignatures op.signatures := by
  match op with
  | .binary .add => exact List.rel_append (numeric_agree _ _) joining_agree
  | .binary .sub | .binary .mul | .binary .div | .binary .mod => exact numeric_agree _ _
  | .binary .equal | .binary .notEqual =>
    exact List.rel_append (comparison_agree _ _) (onBooleans_agree _)
  | .binary .less => exact comparison_agree (· == .lt) false
  | .binary .greater => exact comparison_agree (· == .gt) false
  | .binary .lessEqual => exact comparison_agree (· != .gt) false
  | .binary .greaterEqual => exact comparison_agree (· != .lt) false
  | .binary .and | .binary .or | .binary .xor => exact logical_agree _ _
  | .unary .not | .unary .negate =>
    exact .cons ⟨rfl, fun _ => rfl⟩ <| .cons ⟨rfl, fun _ => rfl⟩ .nil

theorem Function.signatures_agree (f : Function) : AgreeAll f.rawSignatures f.signatures := by
  cases f with
  | abs | round => exact .cons ⟨rfl, fun _ => rfl⟩ <| .cons ⟨rfl, fun _ => rfl⟩ .nil
  | str2int | strlen | issubstr | str2web | str2xml | str2csv | str2js | str2java | trimlines =>
    exact .cons ⟨rfl, fun _ => rfl⟩ .nil

theorem Function.rawArity_eq (f : Function) : f.rawArity = f.arity := by
  cases f <;> rfl

/-- The signature that accepts the values and the one that takes them stand at the same place of
their lists, so their rules give the same. -/
theorem AgreeAll.find?_eq {raws : List RawSignature} {signatures : List Signature}
    (h : AgreeAll raws signatures) (vs : List Value) :
    (raws.find? (·.accepts vs)).map (·.rule vs) =
      (signatures.findSome? (·.tryApply vs)).map Evaluated.raw := by
  induction h with
  | nil => rfl
  | @cons raw s raws signatures hagrees hrest ih =>
    rw [List.find?_cons, List.findSome?_cons, RawSignature.accepts_iff, hagrees.types,
      Signature.tryApply]
    cases hreceived : receiveAll? s.types vs with
    | none => exact ih
    | some args =>
      obtain rfl := eq_valuesOf_of_receiveAll? hreceived
      exact congrArg some (hagrees.rule args)

theorem dispatchRaw_eq {raws : List RawSignature} {signatures : List Signature}
    (h : AgreeAll raws signatures) (name : Text) (vs : List Value) :
    dispatchRaw name raws vs = (dispatch name signatures vs).raw := by
  have hfind := h.find?_eq vs
  unfold dispatchRaw dispatch
  split
  · rfl
  · cases hs : signatures.findSome? (·.tryApply vs) with
    | none =>
      rw [hs, Option.map_none, Option.map_eq_none_iff] at hfind
      rw [hfind]
      rfl
    | some result =>
      rw [hs, Option.map_some, Option.map_eq_some_iff] at hfind
      obtain ⟨raw, hraw, hrule⟩ := hfind
      rw [hraw]
      exact hrule

theorem callFunctionRaw_eq (name : Text) (vs : List Value) :
    callFunctionRaw name vs = (callFunction name vs).raw := by
  unfold callFunctionRaw callFunction
  cases Function.ofName? name with
  | none => rfl
  | some f =>
    simp only [f.rawArity_eq]
    split
    · exact dispatchRaw_eq f.signatures_agree f.name vs
    · rfl

/-- A chain of rules goes wrong where the chain of raw rules does. -/
theorem raw_bind {α : Type} (x : Except EvaluationError α) (f : α → Evaluated) :
    Evaluated.raw (x >>= f) =
      (x.mapError fun e => RawFault.failure (.evaluation e)) >>= fun a => (f a).raw := by
  cases x <;> rfl

namespace Item

mutual

/-- The raw evaluation of an expression is its evaluation. -/
theorem evalRaw_eq (context : Context) (item : Item) :
    item.evalRaw context = (item.eval context).raw := by
  match item with
  | .value v => rfl
  | .reference name _ =>
    rw [evalRaw, eval]
    cases context name <;> rfl
  | .call name arguments _ =>
    rw [evalRaw, eval, raw_bind, evalAllRaw_eq context arguments]
    exact bind_congr_of_ok fun vs _ => callFunctionRaw_eq name vs
  | .unary op operand _ =>
    rw [evalRaw, eval, raw_bind, evalRaw_eq context operand]
    exact bind_congr_of_ok fun v _ => dispatchRaw_eq (Operator.unary op).signatures_agree _ [v]
  | .binary op left right _ =>
    rw [evalRaw, eval, raw_bind, evalRaw_eq context left]
    refine bind_congr_of_ok fun l _ => ?_
    rw [raw_bind, evalRaw_eq context right]
    exact bind_congr_of_ok fun r _ => dispatchRaw_eq (Operator.binary op).signatures_agree _ [l, r]

theorem evalAllRaw_eq (context : Context) (items : List Item) :
    evalAllRaw context items =
      (evalAll context items).mapError fun e => .failure (.evaluation e) := by
  match items with
  | [] => rfl
  | item :: items =>
    rw [evalAllRaw, evalAll, evalRaw_eq context item, evalAllRaw_eq context items]
    cases eval context item with
    | error e => rfl
    | ok v => cases evalAll context items <;> rfl

end

end Item

/-! ## What is not resolved does not pass -/

/-- Whether only a directive fails in this way, and no expression. -/
def EvaluationError.ofDirective : EvaluationError → Bool
  | .extensionFailed _ => true
  | .userError _ => true
  | _ => false

/-- A result of an operator or a function: a value that is resolved, or a failure of an
expression. -/
def Evaluated.Sound : Evaluated → Prop
  | .ok v => v ≠ .unresolved
  | .error e => e.ofDirective = false

theorem Evaluated.Sound.ne_unresolved {result : Evaluated} (h : result.Sound) {v : Value}
    (hv : result = .ok v) : v ≠ .unresolved := by
  subst hv
  exact h

theorem Evaluated.Sound.ofDirective {result : Evaluated} (h : result.Sound) {e : EvaluationError}
    (he : result = .error e) : e.ofDirective = false := by
  subst he
  exact h

/-- Every rule of the signatures has sound results. -/
abbrev SoundRules (signatures : List Signature) : Prop :=
  ∀ s ∈ signatures, ∀ args, (s.rule args).Sound

theorem fitting_sound (symbol : Symbol) (n : Option Int64) : (fitting symbol n).Sound := by
  cases n with
  | none => exact rfl
  | some n => exact nofun

theorem numeric_sound {onInt : Int64 → Int64 → Evaluated} {onFloat : Binary32 → Binary32 → Value}
    (hint : ∀ l r, (onInt l r).Sound) (hfloat : ∀ l r, onFloat l r ≠ .unresolved) :
    SoundRules (numeric onInt onFloat) := by
  intro s hs
  simp only [numeric, List.mem_cons, List.not_mem_nil, or_false] at hs
  obtain rfl | rfl | rfl | rfl := hs
  · exact fun args => hint args.1 args.2.1
  all_goals exact fun args => hfloat _ _

theorem arithmetic_sound (op : BinaryOperator) (onInt : Int64 → Int64 → Option Int64)
    (onFloat : Binary32 → Binary32 → Binary32) : SoundRules (arithmetic op onInt onFloat) :=
  numeric_sound (fun _ _ => fitting_sound _ _) fun _ _ => nofun

theorem division_sound (op : BinaryOperator) (onInt : Int64 → Int64 → Option Int64)
    (onFloat : Binary32 → Binary32 → Binary32) : SoundRules (division op onInt onFloat) := by
  refine numeric_sound (fun l r => ?_) fun _ _ => nofun
  split
  · exact rfl
  · exact fitting_sound _ _

theorem joining_sound : SoundRules joining := by
  intro s hs
  simp only [joining, List.mem_cons, List.not_mem_nil, or_false] at hs
  obtain rfl | rfl := hs <;> exact fun _ => nofun

theorem comparison_sound (holds : Ordering → Bool) (unordered : Bool) :
    SoundRules (comparison holds unordered) := by
  refine List.forall_mem_append.mpr ⟨numeric_sound (fun _ _ => nofun) fun _ _ => nofun, ?_⟩
  exact List.forall_mem_singleton.mpr fun _ => nofun

theorem onBooleans_sound (f : Bool → Bool → Bool) : SoundRules (onBooleans f) :=
  List.forall_mem_singleton.mpr fun _ => nofun

theorem logical_sound (onBool : Bool → Bool → Bool) (onInt : Int64 → Int64 → Int64) :
    SoundRules (logical onBool onInt) :=
  List.forall_mem_append.mpr
    ⟨onBooleans_sound onBool, List.forall_mem_singleton.mpr fun _ => nofun⟩

theorem Operator.rules_sound (op : Operator) : SoundRules op.signatures := by
  match op with
  | .binary .add => exact List.forall_mem_append.mpr ⟨arithmetic_sound _ _ _, joining_sound⟩
  | .binary .sub | .binary .mul => exact arithmetic_sound _ _ _
  | .binary .div | .binary .mod => exact division_sound _ _ _
  | .binary .equal | .binary .notEqual =>
    exact List.forall_mem_append.mpr ⟨comparison_sound _ _, onBooleans_sound _⟩
  | .binary .less => exact comparison_sound (· == .lt) false
  | .binary .greater => exact comparison_sound (· == .gt) false
  | .binary .lessEqual => exact comparison_sound (· != .gt) false
  | .binary .greaterEqual => exact comparison_sound (· != .lt) false
  | .binary .and | .binary .or | .binary .xor => exact logical_sound _ _
  | .unary .not =>
    exact List.forall_mem_cons.mpr ⟨fun _ => nofun, List.forall_mem_singleton.mpr fun _ => nofun⟩
  | .unary .negate =>
    exact List.forall_mem_cons.mpr
      ⟨fun _ => fitting_sound _ _, List.forall_mem_singleton.mpr fun _ => nofun⟩

namespace Function

theorem fitting_sound (f : Function) (n : Option Int64) : (f.fitting n).Sound := by
  cases n with
  | none => exact rfl
  | some n => exact nofun

theorem rounded_sound (x : Binary32) : (rounded x).Sound := by
  unfold rounded
  split
  · exact nofun
  · exact rfl

theorem integerOf_sound (t : Text) : (integerOf t).Sound := by
  unfold integerOf
  split
  · exact nofun
  · exact rfl
  · exact rfl

theorem rules_sound (f : Function) : SoundRules f.signatures := by
  cases f with
  | abs =>
    exact List.forall_mem_cons.mpr
      ⟨fun _ => fitting_sound _ _, List.forall_mem_singleton.mpr fun _ => nofun⟩
  | round =>
    exact List.forall_mem_cons.mpr
      ⟨fun _ => rounded_sound _, List.forall_mem_singleton.mpr fun _ => nofun⟩
  | str2int => exact List.forall_mem_singleton.mpr fun _ => integerOf_sound _
  | strlen => exact List.forall_mem_singleton.mpr fun _ => fitting_sound _ _
  | issubstr | str2web | str2xml | str2csv | str2js | str2java | trimlines =>
    exact List.forall_mem_singleton.mpr fun _ => nofun

end Function

theorem dispatch_sound {signatures : List Signature} (h : SoundRules signatures) (name : Text)
    (vs : List Value) : (dispatch name signatures vs).Sound := by
  unfold dispatch
  split
  · exact rfl
  · cases hs : signatures.findSome? (·.tryApply vs) with
    | none => exact rfl
    | some result =>
      obtain ⟨s, hmem, happly⟩ := List.exists_of_findSome?_eq_some hs
      obtain ⟨args, -, rfl⟩ := Option.map_eq_some_iff.mp happly
      exact h s hmem args

theorem Operator.apply_sound (op : Operator) (vs : List Value) : (op.apply vs).Sound :=
  dispatch_sound op.rules_sound _ vs

theorem callFunction_sound (name : Text) (vs : List Value) : (callFunction name vs).Sound := by
  unfold callFunction
  cases Function.ofName? name with
  | none => exact rfl
  | some f =>
    dsimp only
    split
    · exact dispatch_sound f.rules_sound f.name vs
    · exact rfl

/-- No operator and no function takes a value that is not resolved. -/
theorem dispatch_unresolved {vs : List Value} (h : .unresolved ∈ vs) (name : Text)
    (signatures : List Signature) :
    dispatch name signatures vs = .error (.unresolvedOperand name) :=
  if_pos (List.contains_iff_mem.mpr h)

theorem callFunction_unresolved {vs : List Value} (h : .unresolved ∈ vs) (name : Text) :
    ∃ e, callFunction name vs = .error e := by
  unfold callFunction
  cases Function.ofName? name with
  | none => exact ⟨_, rfl⟩
  | some f =>
    dsimp only
    split
    · exact ⟨_, dispatch_unresolved h f.name f.signatures⟩
    · exact ⟨_, rfl⟩

/-- After a step that fails, or whose every value makes the rest fail, nothing comes out. -/
theorem exists_bind_eq_error {α β ε : Type} {x : Except ε α} {f : α → Except ε β}
    (h : ∀ a, x = .ok a → ∃ e, f a = .error e) : ∃ e, x >>= f = .error e := by
  cases x with
  | error e => exact ⟨e, rfl⟩
  | ok a => exact h a rfl

namespace Item

mutual

/-- The expressions strictly inside an expression. -/
def parts : Item → List Item
  | .value _ => []
  | .reference _ _ => []
  | .call _ arguments _ => partsOfAll arguments
  | .unary _ operand _ => operand :: parts operand
  | .binary _ left right _ => left :: parts left ++ right :: parts right

/-- The expressions and those inside them. -/
def partsOfAll : List Item → List Item
  | [] => []
  | item :: items => item :: parts item ++ partsOfAll items

end

mutual

/-- An expression with a part that is not resolved has no value. -/
theorem eval_of_unresolved {context : Context} {item part : Item} (hpart : part ∈ item.parts)
    (h : part.eval context = .ok .unresolved) : ∃ e, item.eval context = .error e := by
  match item with
  | .value _ => nomatch hpart
  | .reference _ _ => nomatch hpart
  | .call name arguments _ =>
    rw [eval]
    refine exists_bind_eq_error fun vs hvs => ?_
    exact callFunction_unresolved (mem_of_evalAll hpart h hvs) name
  | .unary op operand _ =>
    rw [eval]
    refine exists_bind_eq_error fun v hv => ?_
    rw [parts, List.mem_cons] at hpart
    have hvalue : v = .unresolved := eq_unresolved_of_eval hpart h hv
    exact ⟨_, dispatch_unresolved (by simp [hvalue]) _ _⟩
  | .binary op left right _ =>
    rw [eval]
    refine exists_bind_eq_error fun l hl => exists_bind_eq_error fun r hr => ?_
    rw [parts, List.mem_append, List.mem_cons, List.mem_cons] at hpart
    obtain hleft | hright := hpart
    · have hvalue : l = .unresolved := eq_unresolved_of_eval hleft h hl
      exact ⟨_, dispatch_unresolved (by simp [hvalue]) _ _⟩
    · have hvalue : r = .unresolved := eq_unresolved_of_eval hright h hr
      exact ⟨_, dispatch_unresolved (by simp [hvalue]) _ _⟩

/-- The value of an expression that has one, when the expression or a part of it is not
resolved. -/
theorem eq_unresolved_of_eval {context : Context} {item part : Item} {v : Value}
    (hpart : part = item ∨ part ∈ item.parts) (h : part.eval context = .ok .unresolved)
    (hv : item.eval context = .ok v) : v = .unresolved := by
  obtain rfl | hinside := hpart
  · exact Except.ok.inj (hv.symm.trans h)
  · obtain ⟨e, he⟩ := eval_of_unresolved hinside h
    exact nomatch he.symm.trans hv

theorem mem_of_evalAll {context : Context} {items : List Item} {part : Item} {vs : List Value}
    (hpart : part ∈ partsOfAll items) (h : part.eval context = .ok .unresolved)
    (hvs : evalAll context items = .ok vs) : .unresolved ∈ vs := by
  match items with
  | [] => nomatch hpart
  | item :: items =>
    rw [evalAll, bind_eq_ok_iff] at hvs
    obtain ⟨v, hv, hvs⟩ := hvs
    obtain ⟨rest, hrest, hvs⟩ := bind_eq_ok_iff.mp hvs
    obtain rfl := Except.ok.inj hvs
    rw [partsOfAll, List.mem_append, List.mem_cons] at hpart
    obtain hfirst | hothers := hpart
    · rw [eq_unresolved_of_eval hfirst h hv]
      exact List.mem_cons_self
    · exact List.mem_cons_of_mem v (mem_of_evalAll hothers h hrest)

end

mutual

/-- An expression fails in the ways of expressions only. -/
theorem ofDirective_of_eval {context : Context} {item : Item} {e : EvaluationError}
    (h : item.eval context = .error e) : e.ofDirective = false := by
  match item with
  | .value _ => nomatch h
  | .reference name _ =>
    rw [eval] at h
    cases hname : context name with
    | none =>
      rw [hname] at h
      exact Except.error.inj h ▸ rfl
    | some v =>
      rw [hname] at h
      nomatch h
  | .call name arguments _ =>
    rw [eval, bind_eq_error_iff] at h
    obtain h | ⟨vs, -, h⟩ := h
    · exact ofDirective_of_evalAll h
    · exact (callFunction_sound name vs).ofDirective h
  | .unary op operand _ =>
    rw [eval, bind_eq_error_iff] at h
    obtain h | ⟨v, -, h⟩ := h
    · exact ofDirective_of_eval h
    · exact (Operator.apply_sound (.unary op) [v]).ofDirective h
  | .binary op left right _ =>
    rw [eval, bind_eq_error_iff] at h
    obtain h | ⟨l, -, h⟩ := h
    · exact ofDirective_of_eval h
    · obtain h | ⟨r, -, h⟩ := bind_eq_error_iff.mp h
      · exact ofDirective_of_eval h
      · exact (Operator.apply_sound (.binary op) [l, r]).ofDirective h

theorem ofDirective_of_evalAll {context : Context} {items : List Item} {e : EvaluationError}
    (h : evalAll context items = .error e) : e.ofDirective = false := by
  match items with
  | [] => nomatch h
  | item :: items =>
    rw [evalAll, bind_eq_error_iff] at h
    obtain h | ⟨v, -, h⟩ := h
    · exact ofDirective_of_eval h
    · obtain h | ⟨vs, -, h⟩ := bind_eq_error_iff.mp h
      · exact ofDirective_of_evalAll h
      · nomatch h

end

/-- The only expressions that are not resolved are the value that says so and the variables that
hold it. -/
theorem unresolved_cases {context : Context} {item : Item}
    (h : item.eval context = .ok .unresolved) :
    item = .value .unresolved ∨
      ∃ name column, item = .reference name column ∧ context name = some .unresolved := by
  cases item with
  | value v =>
    rw [eval] at h
    exact .inl (congrArg _ (Except.ok.inj h))
  | reference name column =>
    rw [eval] at h
    cases hname : context name with
    | none =>
      rw [hname] at h
      nomatch h
    | some v =>
      rw [hname] at h
      exact .inr ⟨name, column, rfl, by rw [hname, Except.ok.inj h]⟩
  | call name arguments _ =>
    rw [eval, bind_eq_ok_iff] at h
    obtain ⟨vs, -, h⟩ := h
    exact absurd rfl ((callFunction_sound name vs).ne_unresolved h)
  | unary op operand _ =>
    rw [eval, bind_eq_ok_iff] at h
    obtain ⟨v, -, h⟩ := h
    exact absurd rfl ((Operator.apply_sound (.unary op) [v]).ne_unresolved h)
  | binary op left right _ =>
    rw [eval, bind_eq_ok_iff] at h
    obtain ⟨l, -, h⟩ := h
    obtain ⟨r, -, h⟩ := bind_eq_ok_iff.mp h
    exact absurd rfl ((Operator.apply_sound (.binary op) [l, r]).ne_unresolved h)

end Item

/-- **Evaluation is type safe.** For every expression and all variables, the raw evaluation is the
evaluation: it never asks for an argument that is not there, never meets a value of another type,
and whatever it fails with is an `EvaluationError`, but none of those that only a directive gives.
If some part strictly inside the expression is not resolved then the expression fails, so an
expression that is not resolved is that value itself or a variable that holds it. -/
theorem eval_typeSafe (item : Item) (context : Context) :
    item.evalRaw context =
      (item.eval context).mapError (fun e => .failure (.evaluation e)) ∧
    (∀ e, item.eval context = .error e →
      (∀ message, e ≠ .userError message) ∧ ∀ arguments, e ≠ .extensionFailed arguments) ∧
    (∀ part ∈ item.parts, part.eval context = .ok .unresolved →
      ∃ e, item.eval context = .error e) ∧
    (item.eval context = .ok .unresolved →
      item = .value .unresolved ∨
        ∃ name column, item = .reference name column ∧ context name = some .unresolved) := by
  refine ⟨item.evalRaw_eq context, fun e h => ?_, fun part hpart => Item.eval_of_unresolved hpart,
    Item.unresolved_cases⟩
  have hown : e.ofDirective = false := Item.ofDirective_of_eval h
  constructor
  · rintro message rfl
    nomatch hown
  · rintro arguments rfl
    nomatch hown

end SourcePreprocessor
