import Mathlib.Algebra.Group.Int.Defs
import SourcePreprocessor.Proofs.Expr.Strictness

/-!
# Integer arithmetic is exact or fails

Between integers of 64 bits the sum, the difference, the product, the quotient and the remainder are
those of the integers without bounds, or the operator fails. Here the two are compared over whole
expressions. `Item.exactValue?` evaluates an expression over the unbounded integers, where only a
division by zero has no result. Two things can be wrong with an expression: its divisor is zero
(`DividesByZero`), or its exact value does not fit into 64 bits (`Overflows`). The remainder of the
smallest integer by minus one counts as one that does not fit, although it is zero, because it is
taken together with the quotient.

> `apply_arithmetic`: what an operator gives for two integers;
> `finish_settles`: for one expression whose operands have their exact values, the same in terms of
> `exactValue?`, `DividesByZero` and `Overflows`;
> `eval_exact`: an expression has its exact value when nothing is wrong with any expression inside
> it, and else the first with which something is wrong decides how it fails.
-/

namespace SourcePreprocessor

namespace Number

/-- The integer is in the range of 64 bits. -/
def Fits (n : Int) : Prop := -2 ^ 63 ≤ n ∧ n < 2 ^ 63

theorem fits_toInt (m : Int64) : Fits m.toInt := ⟨Int64.le_toInt m, Int64.toInt_lt m⟩

theorem narrow?_eq_none_iff_fits {n : Int} : narrow? n = none ↔ ¬ Fits n := by
  rw [narrow?_eq_none_iff, Int64.toInt_minValue, Int64.toInt_maxValue]
  unfold Fits
  omega

/-- A quotient is too large only where the smallest integer is divided by minus one. -/
theorem fits_tdiv {a b : Int} (ha : Fits a) (h : ¬ (a = -2 ^ 63 ∧ b = -1)) : Fits (a.tdiv b) := by
  unfold Fits at ha ⊢
  have habs : (a.tdiv b).natAbs ≤ a.natAbs := Int.natAbs_tdiv_le_natAbs a b
  by_cases hone : b = 1 ∨ b = -1
  · obtain rfl | rfl := hone
    · rwa [Int.tdiv_one]
    · rw [Int.tdiv_neg, Int.tdiv_one]
      omega
  · by_cases hzero : b = 0
    · rw [hzero, Int.tdiv_zero]
      decide
    · have hhalf : (a.tdiv b).natAbs ≤ a.natAbs / 2 := by
        rw [Int.natAbs_tdiv]
        exact Nat.div_le_div_left (by omega) (by decide)
      omega

/-- A remainder fails only where the quotient does. -/
theorem rem?_eq (a b : Int64) :
    rem? a b =
      if a.toInt = -2 ^ 63 ∧ b.toInt = -1 then none else narrow? (a.toInt.tmod b.toInt) := by
  unfold rem? div?
  split
  · next h =>
    rw [h.1, h.2, show narrow? ((-2 ^ 63 : Int).tdiv (-1)) = none by decide]
    rfl
  · next h =>
    cases hquotient : narrow? (a.toInt.tdiv b.toInt) with
    | none => exact absurd (fits_tdiv (fits_toInt a) h) (narrow?_eq_none_iff_fits.1 hquotient)
    | some q => rfl

end Number

/-! ## Over the unbounded integers -/

/-- The operators of arithmetic. -/
def BinaryOperator.IsArithmetic (op : BinaryOperator) : Prop :=
  op ∈ [.add, .sub, .mul, .div, .mod]

instance (op : BinaryOperator) : Decidable op.IsArithmetic :=
  inferInstanceAs (Decidable (op ∈ [.add, .sub, .mul, .div, .mod]))

/-- Whether the operator divides. -/
def BinaryOperator.Divides (op : BinaryOperator) : Prop := op = .div ∨ op = .mod

instance (op : BinaryOperator) : Decidable op.Divides :=
  inferInstanceAs (Decidable (op = .div ∨ op = .mod))

/-- What an operator of arithmetic gives for unbounded integers. A quotient is rounded toward zero,
and a remainder has the sign of the dividend; there is neither for the divisor zero. -/
def BinaryOperator.exactResult? : BinaryOperator → Int → Int → Option Int
  | .add, a, b => some (a + b)
  | .sub, a, b => some (a - b)
  | .mul, a, b => some (a * b)
  | .div, a, b => if b = 0 then none else some (a.tdiv b)
  | .mod, a, b => if b = 0 then none else some (a.tmod b)
  | _, _, _ => none

namespace Item

/-- The expression is made of integers, variables that hold integers, the operators of arithmetic
and the minus sign. -/
inductive IsInteger (context : Context) : Item → Prop where
  | literal {n} : IsInteger context (.value (.int n))
  | reference {name column n} : context name = some (.int n) →
      IsInteger context (.reference name column)
  | negation {operand column} : IsInteger context operand →
      IsInteger context (.unary .negate operand column)
  | operation {op left right column} : op.IsArithmetic → IsInteger context left →
      IsInteger context right → IsInteger context (.binary op left right column)

/-- The value of an expression over the unbounded integers; none where it divides by zero. -/
def exactValue? (context : Context) : Item → Option Int
  | .value v => v.int?.map Int64.toInt
  | .reference name _ => (context name).bind fun v => v.int?.map Int64.toInt
  | .unary .negate operand _ => (exactValue? context operand).map (- ·)
  | .binary op left right _ => do
    op.exactResult? (← exactValue? context left) (← exactValue? context right)
  | _ => none

/-- The expression is a division or a remainder by zero. -/
def DividesByZero (context : Context) : Item → Prop
  | .binary op _ right _ => op.Divides ∧ right.exactValue? context = some 0
  | _ => False

/-- The expression is a remainder of the smallest integer by minus one. -/
def IsLostRemainder (context : Context) : Item → Prop
  | .binary .mod left right _ =>
    left.exactValue? context = some (-2 ^ 63) ∧ right.exactValue? context = some (-1)
  | _ => False

/-- The exact value of the expression does not fit into 64 bits, or its quotient does not. -/
def Overflows (context : Context) (item : Item) : Prop :=
  (∃ n, item.exactValue? context = some n ∧ ¬ Number.Fits n) ∨ item.IsLostRemainder context

/-- Something is wrong with the expression itself. -/
def Offends (context : Context) (item : Item) : Prop :=
  item.DividesByZero context ∨ item.Overflows context

/-- The symbol of the operator that an expression has at its root. -/
def symbol? : Item → Option Symbol
  | .unary op _ _ => some op.symbol
  | .binary op _ _ _ => some op.symbol
  | _ => none

/-- What exact arithmetic demands of an expression: its exact value, or the failure that says what
is wrong with it. -/
inductive Settles (context : Context) (item : Item) : Evaluated → Prop where
  | exact {n : Int64} : item.exactValue? context = some n.toInt → ¬ item.DividesByZero context →
      ¬ item.Overflows context → Settles context item (.ok (.int n))
  | zero : item.DividesByZero context → Settles context item (.error .divisionByZero)
  | overflow {symbol : Symbol} : ¬ item.DividesByZero context → item.Overflows context →
      item.symbol? = some symbol → Settles context item (.error (.integerOverflow symbol.text))

end Item

/-! ## One operator -/

/-- An operator of arithmetic fails for a divisor of zero, and else where its exact result does not
fit or its quotient does not. -/
theorem apply_arithmetic {op : BinaryOperator} (h : op.IsArithmetic) (l r : Int64) :
    (Operator.binary op).apply [.int l, .int r] =
      if op.Divides ∧ r.toInt = 0 then .error .divisionByZero
      else if op = .mod ∧ l.toInt = -2 ^ 63 ∧ r.toInt = -1 then
        .error (.integerOverflow op.symbol.text)
      else fitting op.symbol (op.exactResult? l.toInt r.toInt >>= Number.narrow?) := by
  have hzero : r.toInt = 0 ↔ r = 0 := by rw [← Int64.toInt_inj, Int64.toInt_zero]
  simp only [BinaryOperator.IsArithmetic, List.mem_cons, List.not_mem_nil, or_false] at h
  obtain rfl | rfl | rfl | rfl | rfl := h
  · rfl
  · rfl
  · rfl
  · show (if r = 0 then _ else fitting _ (Number.div? l r)) = _
    by_cases hr : r = 0
    · rw [if_pos hr, if_pos ⟨.inl rfl, hzero.2 hr⟩]
    · rw [if_neg hr, if_neg fun hdivides => hr (hzero.1 hdivides.2), if_neg nofun,
        BinaryOperator.exactResult?, if_neg fun h => hr (hzero.1 h)]
      rfl
  · show (if r = 0 then _ else fitting _ (Number.rem? l r)) = _
    by_cases hr : r = 0
    · rw [if_pos hr, if_pos ⟨.inr rfl, hzero.2 hr⟩]
    · rw [if_neg hr, if_neg fun hdivides => hr (hzero.1 hdivides.2), BinaryOperator.exactResult?,
        if_neg fun h => hr (hzero.1 h), Number.rem?_eq]
      by_cases hlost : l.toInt = -2 ^ 63 ∧ r.toInt = -1
      · rw [if_pos hlost, if_pos ⟨rfl, hlost⟩]
        rfl
      · rw [if_neg hlost, if_neg fun h => hlost h.2]
        rfl

theorem BinaryOperator.exists_exactResult? {op : BinaryOperator} (h : op.IsArithmetic) {a b : Int}
    (hzero : ¬ (op.Divides ∧ b = 0)) : ∃ n, op.exactResult? a b = some n := by
  simp only [IsArithmetic, List.mem_cons, List.not_mem_nil, or_false] at h
  obtain rfl | rfl | rfl | rfl | rfl := h
  · exact ⟨_, rfl⟩
  · exact ⟨_, rfl⟩
  · exact ⟨_, rfl⟩
  · exact ⟨_, if_neg fun hb => hzero ⟨.inl rfl, hb⟩⟩
  · exact ⟨_, if_neg fun hb => hzero ⟨.inr rfl, hb⟩⟩

/-! ## One expression -/

namespace Item

variable {context : Context}

theorem IsInteger.operands {item : Item} (h : item.IsInteger context) :
    ∀ operand ∈ item.operands, operand.IsInteger context := by
  cases h with
  | literal => exact List.forall_mem_nil _
  | reference hname => exact List.forall_mem_nil _
  | negation hoperand => exact List.forall_mem_singleton.2 hoperand
  | operation _ hleft hright =>
    exact List.forall_mem_cons.2 ⟨hleft, List.forall_mem_singleton.2 hright⟩

/-- Every expression inside one of integers is one. -/
theorem IsInteger.postorder {item : Item} (h : item.IsInteger context) :
    ∀ node ∈ item.postorder, node.IsInteger context := by
  revert h
  refine of_operands (P := fun item => item.IsInteger context →
    ∀ node ∈ item.postorder, node.IsInteger context) (fun item ih h node hnode => ?_) item
  rw [postorder_eq, List.mem_append, mem_postorderAll, List.mem_singleton] at hnode
  obtain ⟨operand, hoperand, hnode⟩ | rfl := hnode
  · exact ih operand hoperand (h.operands operand hoperand) node hnode
  · exact h

/-- An integer that is the exact value settles the expression. -/
theorem settles_exact {item : Item} {n : Int64} (hexact : item.exactValue? context = some n.toInt)
    (hzero : ¬ item.DividesByZero context) (hlost : ¬ item.IsLostRemainder context) :
    item.Settles context (.ok (.int n)) := by
  refine .exact hexact hzero ?_
  rintro (⟨m, hm, hfits⟩ | h)
  · obtain rfl := Option.some.inj (hexact.symm.trans hm)
    exact hfits (Number.fits_toInt n)
  · exact hlost h

/-- Where nothing else is wrong with an expression, whether its exact value fits settles it. -/
theorem settles_fitting {item : Item} {symbol : Symbol} {value : Int}
    (hexact : item.exactValue? context = some value) (hsymbol : item.symbol? = some symbol)
    (hzero : ¬ item.DividesByZero context) (hlost : ¬ item.IsLostRemainder context) :
    item.Settles context (fitting symbol (Number.narrow? value)) := by
  cases hvalue : Number.narrow? value with
  | none =>
    exact .overflow hzero (.inl ⟨value, hexact, Number.narrow?_eq_none_iff_fits.1 hvalue⟩) hsymbol
  | some n =>
    obtain rfl := Number.narrow?_eq_some_iff.1 hvalue
    exact settles_exact hexact hzero hlost

/-- The value of the expression, if it has one, is an integer and exact. -/
def IsExact (context : Context) (item : Item) : Prop :=
  ∀ v, item.eval context = .ok v → ∃ n : Int64, v = .int n ∧ item.exactValue? context = some n.toInt

/-- On exact values of its operands an expression does what exact arithmetic demands. -/
theorem finish_settles {item : Item} (h : item.IsInteger context)
    (hoperands : ∀ operand ∈ item.operands, operand.IsExact context) {vs : List Value}
    (hvs : item.operands.map (eval context) = vs.map .ok) :
    item.Settles context (item.finish context vs) := by
  cases h with
  | literal => exact settles_exact rfl id id
  | @reference name column n hname =>
    have hexact : (Item.reference name column).exactValue? context = some n.toInt := by
      rw [exactValue?, hname]
      rfl
    rw [finish, hname]
    exact settles_exact hexact id id
  | @negation operand column _ =>
    obtain ⟨v, rfl, hv⟩ := List.map_eq_singleton_iff.1 hvs.symm
    obtain ⟨n, rfl, hn⟩ := hoperands operand List.mem_cons_self v hv.symm
    have hexact : (Item.unary .negate operand column).exactValue? context = some (-n.toInt) := by
      rw [exactValue?, hn]
      rfl
    have hsymbol : (Item.unary .negate operand column).symbol? = some .minus := rfl
    exact settles_fitting hexact hsymbol id id
  | @operation op left right column hop _ _ =>
    obtain ⟨v, ws, rfl, hv, hws⟩ := List.map_eq_cons_iff.1 hvs.symm
    obtain ⟨w, rfl, hw⟩ := List.map_eq_singleton_iff.1 hws
    obtain ⟨hleft, hright⟩ := List.forall_mem_cons.1 hoperands
    obtain ⟨l, rfl, hl⟩ := hleft v hv.symm
    obtain ⟨r, rfl, hr⟩ := List.forall_mem_singleton.1 hright w hw.symm
    have hzero : (Item.binary op left right column).DividesByZero context ↔
        op.Divides ∧ r.toInt = 0 := by
      rw [DividesByZero, hr, Option.some.injEq]
    have hlost : (Item.binary op left right column).IsLostRemainder context ↔
        op = .mod ∧ l.toInt = -2 ^ 63 ∧ r.toInt = -1 := by
      cases op <;> simp [IsLostRemainder, hl, hr]
    rw [finish, apply_arithmetic hop]
    split
    · next hdivides => exact .zero (hzero.2 hdivides)
    · next hdivides =>
      split
      · next hmod => exact .overflow (hdivides ∘ hzero.1) (.inr (hlost.2 hmod)) rfl
      · next hmod =>
        obtain ⟨value, hvalue⟩ := BinaryOperator.exists_exactResult? hop hdivides
        have hexact : (Item.binary op left right column).exactValue? context = some value := by
          rw [exactValue?, hl, hr]
          exact hvalue
        rw [hvalue]
        exact settles_fitting hexact rfl (hdivides ∘ hzero.1) (hmod ∘ hlost.1)

/-- An expression of integers that has a value has its exact value, and nothing is wrong with it. -/
theorem IsInteger.settles {item : Item} (h : item.IsInteger context) {v : Value}
    (hv : item.eval context = .ok v) : item.Settles context (.ok v) := by
  revert h v
  refine of_operands (P := fun item => item.IsInteger context → ∀ {v : Value},
    item.eval context = .ok v → item.Settles context (.ok v)) (fun item ih h v hv => ?_) item
  rw [eval_eq_finish] at hv
  obtain ⟨vs, hvs, hfinish⟩ := bind_eq_ok_iff.1 hv
  rw [← hfinish]
  refine finish_settles h (fun operand hoperand w hw => ?_) (evalAll_eq_ok_iff.1 hvs)
  cases ih operand hoperand (h.operands operand hoperand) hw with
  | exact hexact _ _ => exact ⟨_, rfl, hexact⟩

/-- An expression of integers fails on the values of its operands only for what is wrong with it. -/
theorem IsInteger.settles_of_raises {item : Item} (h : item.IsInteger context) {e : EvaluationError}
    (he : item.Raises context e) : item.Settles context (.error e) := by
  obtain ⟨vs, hvs, hfinish⟩ := he
  rw [← hfinish]
  refine finish_settles h (fun operand hoperand w hw => ?_) hvs
  cases (h.operands operand hoperand).settles hw with
  | exact hexact _ _ => exact ⟨_, rfl, hexact⟩

theorem IsInteger.not_offends {item : Item} (h : item.IsInteger context)
    (hv : ∃ v, item.eval context = .ok v) : ¬ item.Offends context := by
  obtain ⟨v, hv⟩ := hv
  cases h.settles hv with
  | exact _ hzero hoverflows => exact not_or.2 ⟨hzero, hoverflows⟩

end Item

/-- **Integer arithmetic is exact or fails.** Let an expression consist of integers, variables that
hold integers, the operators of arithmetic and the minus sign. Its value is an integer exactly when
that is its value over the unbounded integers and nothing is wrong with any expression inside it:
every exact value fits into 64 bits, no divisor is zero, and the smallest integer is not taken
modulo minus one. Otherwise it fails, and the first in the order of evaluation with which something
is wrong decides how: with a division by zero if its divisor is zero, and else with an overflow that
names its operator. -/
theorem eval_exact {item : Item} {context : Context} (h : item.IsInteger context) :
    (∀ n : Int64, item.eval context = .ok (.int n) ↔
      item.exactValue? context = some n.toInt ∧ ∀ node ∈ item.postorder, ¬ node.Offends context) ∧
    ((¬ ∃ n : Int64, item.eval context = .ok (.int n)) →
      ∃ before node after, item.postorder = before ++ node :: after ∧
        (∀ earlier ∈ before, ¬ earlier.Offends context) ∧
        (node.DividesByZero context ∧ item.eval context = .error .divisionByZero ∨
          ¬ node.DividesByZero context ∧ node.Overflows context ∧
            ∃ symbol, node.symbol? = some symbol ∧
              item.eval context = .error (.integerOverflow symbol.text))) := by
  have hvalue : ∀ v, item.eval context = .ok v →
      ∃ n : Int64, v = .int n ∧ item.exactValue? context = some n.toInt := by
    intro v hv
    cases h.settles hv with
    | exact hexact _ _ => exact ⟨_, rfl, hexact⟩
  refine ⟨fun n => ⟨fun hn => ?_, fun ⟨hexact, hnodes⟩ => ?_⟩, fun hnone => ?_⟩
  · obtain ⟨m, hm, hexact⟩ := hvalue _ hn
    obtain rfl := Value.int.inj hm
    refine ⟨hexact, fun node hnode => (h.postorder node hnode).not_offends ?_⟩
    exact (Item.follows_postorder context item).ok _ hn node hnode
  · cases heval : item.eval context with
    | ok v =>
      obtain ⟨m, rfl, hm⟩ := hvalue v heval
      obtain rfl := Int64.toInt_inj.1 (Option.some.inj (hm.symm.trans hexact))
      rfl
    | error e =>
      -- a failure begins at an expression with which something is wrong
      obtain ⟨before, node, after, hsplit, -, hraises⟩ := Item.eval_eq_error_iff.1 heval
      have hnode : node ∈ item.postorder := by simp [hsplit]
      cases (h.postorder node hnode).settles_of_raises hraises with
      | zero hzero => exact absurd (.inl hzero) (hnodes node hnode)
      | overflow _ hoverflows _ => exact absurd (.inr hoverflows) (hnodes node hnode)
  · cases heval : item.eval context with
    | ok v =>
      obtain ⟨m, rfl, -⟩ := hvalue v heval
      exact absurd ⟨m, heval⟩ hnone
    | error e =>
      obtain ⟨before, node, after, hsplit, hbefore, hraises⟩ := Item.eval_eq_error_iff.1 heval
      have hnodes := h.postorder
      rw [hsplit, List.forall_mem_append, List.forall_mem_cons] at hnodes
      refine ⟨before, node, after, hsplit, fun earlier hearlier => ?_, ?_⟩
      · exact (hnodes.1 earlier hearlier).not_offends (hbefore earlier hearlier)
      · cases hnodes.2.1.settles_of_raises hraises with
        | zero hzero => exact .inl ⟨hzero, rfl⟩
        | overflow hzero hoverflows hsymbol => exact .inr ⟨hzero, hoverflows, _, hsymbol, rfl⟩

/-- The expression `-x + 1 / 0`, with something wrong on both sides when `x` is the smallest
integer. -/
def doublyWrong : Item :=
  .binary .add (.unary .negate (.reference ['x'] 2) 1)
    (.binary .div (.value (.int 1)) (.value (.int 0)) 8) 4

/-- The variable `x` is the smallest integer, and there is no other. -/
def smallestX : Context := fun name => if name = ['x'] then some (.int Int64.minValue) else none

/-- The negation comes first in the order of evaluation, so it is the overflow that is reported. -/
theorem doublyWrong_overflows :
    doublyWrong.IsInteger smallestX ∧
    doublyWrong.eval smallestX = .error (.integerOverflow ['-']) ∧
    ∃ before node after, doublyWrong.postorder = before ++ node :: after ∧
      (∀ earlier ∈ before, ¬ earlier.Offends smallestX) ∧
      (node.DividesByZero smallestX ∧ doublyWrong.eval smallestX = .error .divisionByZero ∨
        ¬ node.DividesByZero smallestX ∧ node.Overflows smallestX ∧
          ∃ symbol, node.symbol? = some symbol ∧
            doublyWrong.eval smallestX = .error (.integerOverflow symbol.text)) := by
  have hinteger : doublyWrong.IsInteger smallestX :=
    .operation (by decide) (.negation (.reference rfl)) (.operation (by decide) .literal .literal)
  have heval : doublyWrong.eval smallestX = .error (.integerOverflow ['-']) := by rfl
  refine ⟨hinteger, heval, (eval_exact hinteger).2 ?_⟩
  rintro ⟨n, hn⟩
  nomatch heval.symm.trans hn

end SourcePreprocessor
