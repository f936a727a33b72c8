import SourcePreprocessor.Expr.Eval
import SourcePreprocessor.Proofs.Except

/-!
# Evaluation is strict and goes from left to right

An expression is evaluated in one order: all of its operands from left to right, each with
everything inside it, and then the expression itself. `Item.postorder` lists the expressions inside
an expression in this order, with the expression itself as the last one, and `Item.finish` is what
is left to do for an expression once its operands have values: to look up a variable, or to apply an
operator or a function.

> `eval_eq_finish`: to evaluate an expression is to evaluate its operands and to finish;
> `eval_strict`: an expression has a value only if everything inside it has one, and it fails with
> what the first expression of the order fails with that does not finish. Variables that do not
> occur in it have no influence.

No operator is an exception: `&&` and `||` evaluate the right operand whatever the left one is.
-/

namespace SourcePreprocessor

namespace Item

/-- The expressions that the operator or function of an expression is applied to. -/
def operands : Item → List Item
  | .value _ => []
  | .reference _ _ => []
  | .call _ arguments _ => arguments
  | .unary _ operand _ => [operand]
  | .binary _ left right _ => [left, right]

/-- What an expression gives when its operands have the values: the value of a variable, or what the
operator or function gives for them. -/
def finish (context : Context) : Item → List Value → Evaluated
  | .value v, _ => .ok v
  | .reference name _, _ =>
    match context name with
    | some v => .ok v
    | none => .error (.unknownVariable name)
  | .call name _ _, vs => callFunction name vs
  | .unary op _ _, vs => (Operator.unary op).apply vs
  | .binary op _ _ _, vs => (Operator.binary op).apply vs

mutual

/-- The expressions inside an expression and the expression itself, each after its operands and
these from left to right. -/
def postorder : Item → List Item
  | .value v => [.value v]
  | .reference name column => [.reference name column]
  | .call name arguments column => postorderAll arguments ++ [.call name arguments column]
  | .unary op operand column => postorder operand ++ [.unary op operand column]
  | .binary op left right column =>
    postorder left ++ postorder right ++ [.binary op left right column]

/-- The same for several expressions, one after the other. -/
def postorderAll : List Item → List Item
  | [] => []
  | item :: items => postorder item ++ postorderAll items

end

/-- The operands of an expression have values, and the expression itself fails on them. -/
def Raises (context : Context) (item : Item) (e : EvaluationError) : Prop :=
  ∃ vs, item.operands.map (eval context) = vs.map .ok ∧ item.finish context vs = .error e

/-! ## One step at a time -/

theorem eval_eq_finish (context : Context) (item : Item) :
    item.eval context = evalAll context item.operands >>= item.finish context := by
  cases item with
  | value v => rfl
  | reference name column => rfl
  | call name arguments column => rfl
  | unary op operand column =>
    rw [eval, operands, evalAll, evalAll]
    cases eval context operand <;> rfl
  | binary op left right column =>
    rw [eval, operands, evalAll, evalAll, evalAll]
    cases eval context left with
    | error e => rfl
    | ok l => cases eval context right <;> rfl

theorem postorder_eq (item : Item) : item.postorder = postorderAll item.operands ++ [item] := by
  cases item <;> simp [postorder, operands, postorderAll]

theorem mem_postorder_self (item : Item) : item ∈ item.postorder := by
  rw [postorder_eq]
  exact List.mem_append_right _ List.mem_cons_self

theorem mem_postorderAll {items : List Item} {part : Item} :
    part ∈ postorderAll items ↔ ∃ item ∈ items, part ∈ item.postorder := by
  induction items with
  | nil => simp [postorderAll]
  | cons item items ih => simp [postorderAll, ih]

-- What holds of an expression as soon as it holds of its operands holds of every expression. The
-- recursion goes through the lists of arguments, here once for all proofs about the order.
mutual

theorem of_operands {P : Item → Prop} (h : ∀ item, (∀ operand ∈ item.operands, P operand) → P item)
    (item : Item) : P item := by
  match item with
  | .value v => exact h (.value v) nofun
  | .reference name column => exact h (.reference name column) nofun
  | .call name arguments column =>
    exact h (.call name arguments column) (forall_of_operands h arguments)
  | .unary op operand column =>
    exact h (.unary op operand column) (List.forall_mem_singleton.2 (of_operands h operand))
  | .binary op left right column =>
    refine h (.binary op left right column) (List.forall_mem_cons.2 ⟨of_operands h left, ?_⟩)
    exact List.forall_mem_singleton.2 (of_operands h right)

theorem forall_of_operands {P : Item → Prop}
    (h : ∀ item, (∀ operand ∈ item.operands, P operand) → P item) (items : List Item) :
    ∀ item ∈ items, P item := by
  match items with
  | [] => nofun
  | item :: items => exact List.forall_mem_cons.2 ⟨of_operands h item, forall_of_operands h items⟩

end

/-- Several expressions have values when each of them, on its own, has its value. -/
theorem evalAll_eq_ok_iff {context : Context} {items : List Item} {vs : List Value} :
    evalAll context items = .ok vs ↔ items.map (eval context) = vs.map .ok := by
  induction items generalizing vs with
  | nil =>
    rw [evalAll, Except.ok.injEq, List.map_nil, eq_comm, eq_comm (a := []), List.map_eq_nil_iff]
  | cons item items ih =>
    rw [evalAll, bind_eq_ok_iff, List.map_cons]
    constructor
    · rintro ⟨v, hv, h⟩
      obtain ⟨rest, hrest, h⟩ := bind_eq_ok_iff.1 h
      obtain rfl := Except.ok.inj h
      rw [List.map_cons, hv, ih.1 hrest]
    · intro h
      cases vs with
      | nil => exact absurd h (List.cons_ne_nil _ _)
      | cons v rest =>
        obtain ⟨hv, hrest⟩ := List.cons.inj h
        exact ⟨v, hv, bind_eq_ok_iff.2 ⟨rest, ih.2 hrest, rfl⟩⟩

/-- The values of several expressions are those that each of them has on its own. -/
theorem evalAll_eq_mapM (context : Context) (items : List Item) :
    evalAll context items = (items.map (eval context)).mapM id := by
  induction items with
  | nil => rfl
  | cons item items ih =>
    rw [evalAll, ih, List.map_cons, List.mapM_cons]
    rfl

theorem Raises.eval_eq {context : Context} {item : Item} {e : EvaluationError}
    (h : item.Raises context e) : item.eval context = .error e := by
  obtain ⟨vs, hvs, hfinish⟩ := h
  rw [eval_eq_finish, evalAll_eq_ok_iff.2 hvs]
  exact hfinish

/-! ## The first that fails -/

/-- All expressions of the list have values up to one that raises the failure. -/
def FirstRaises (context : Context) (nodes : List Item) (e : EvaluationError) : Prop :=
  ∃ before node after, nodes = before ++ node :: after ∧
    (∀ part ∈ before, ∃ v, part.eval context = .ok v) ∧ node.Raises context e

namespace FirstRaises

variable {context : Context} {nodes : List Item} {e : EvaluationError}

theorem append (h : FirstRaises context nodes e) (more : List Item) :
    FirstRaises context (nodes ++ more) e := by
  obtain ⟨before, node, after, rfl, hbefore, hnode⟩ := h
  exact ⟨before, node, after ++ more, by simp, hbefore, hnode⟩

theorem behind (h : FirstRaises context nodes e) {earlier : List Item}
    (hearlier : ∀ part ∈ earlier, ∃ v, part.eval context = .ok v) :
    FirstRaises context (earlier ++ nodes) e := by
  obtain ⟨before, node, after, rfl, hbefore, hnode⟩ := h
  refine ⟨earlier ++ before, node, after, by simp, ?_, hnode⟩
  exact List.forall_mem_append.2 ⟨hearlier, hbefore⟩

/-- Where the expressions are stopped is the first of them without a value. -/
theorem find?_eq (h : FirstRaises context nodes e) :
    ∃ node, nodes.find? (fun part => !(part.eval context).isOk) = some node ∧
      node.eval context = .error e := by
  obtain ⟨before, node, after, rfl, hbefore, hnode⟩ := h
  refine ⟨node, List.find?_eq_some_iff_append.2 ⟨?_, before, after, rfl, fun part hpart => ?_⟩,
    hnode.eval_eq⟩
  · rw [hnode.eval_eq]
    rfl
  · obtain ⟨v, hv⟩ := hbefore part hpart
    rw [hv]
    rfl

theorem unique {e' : EvaluationError} (h : FirstRaises context nodes e)
    (h' : FirstRaises context nodes e') : e = e' := by
  obtain ⟨node, hfirst, heval⟩ := h.find?_eq
  obtain ⟨node', hfirst', heval'⟩ := h'.find?_eq
  obtain rfl := Option.some.inj (hfirst.symm.trans hfirst')
  exact Except.error.inj (heval.symm.trans heval')

end FirstRaises

/-- The evaluation goes through the expressions as they are listed: it gives a value when all of
them have one, and else what the first that fails raises. -/
structure Follows (context : Context) {α : Type} (nodes : List Item)
    (result : Except EvaluationError α) : Prop where
  ok : ∀ a, result = .ok a → ∀ part ∈ nodes, ∃ v, part.eval context = .ok v
  error : ∀ e, result = .error e → FirstRaises context nodes e

theorem follows_all {context : Context} {items : List Item}
    (h : ∀ item ∈ items, Follows context item.postorder (item.eval context)) :
    Follows context (postorderAll items) (evalAll context items) := by
  induction items with
  | nil => exact ⟨fun _ _ => nofun, nofun⟩
  | cons item items ih =>
    obtain ⟨hitem, hitems⟩ := List.forall_mem_cons.1 h
    have hrest := ih hitems
    rw [evalAll, postorderAll]
    constructor
    · intro vs hvs
      obtain ⟨v, hv, hvs⟩ := bind_eq_ok_iff.1 hvs
      obtain ⟨rest, hvs, -⟩ := bind_eq_ok_iff.1 hvs
      exact List.forall_mem_append.2 ⟨hitem.ok v hv, hrest.ok rest hvs⟩
    · intro e he
      -- the first of them fails, or it has a value and one of the others fails
      obtain hfirst | ⟨v, hv, hothers⟩ := bind_eq_error_iff.1 he
      · exact (hitem.error e hfirst).append _
      · obtain hothers | ⟨rest, -, hcons⟩ := bind_eq_error_iff.1 hothers
        · exact (hrest.error e hothers).behind (hitem.ok v hv)
        · cases hcons

theorem follows_postorder (context : Context) (item : Item) :
    Follows context item.postorder (item.eval context) := by
  refine of_operands (P := fun item => Follows context item.postorder (item.eval context))
    (fun item h => ?_) item
  have hoperands := follows_all h
  constructor
  · intro v hv
    have hself := hv
    rw [eval_eq_finish] at hv
    obtain ⟨vs, hvs, -⟩ := bind_eq_ok_iff.1 hv
    rw [postorder_eq]
    exact List.forall_mem_append.2
      ⟨hoperands.ok vs hvs, List.forall_mem_singleton.2 ⟨v, hself⟩⟩
  · intro e he
    rw [eval_eq_finish] at he
    rw [postorder_eq]
    -- an operand fails, or all have values and the expression itself fails on them
    obtain hoperand | ⟨vs, hvs, hfinish⟩ := bind_eq_error_iff.1 he
    · exact (hoperands.error e hoperand).append _
    · have hraises : item.Raises context e := ⟨vs, evalAll_eq_ok_iff.1 hvs, hfinish⟩
      have hlast : FirstRaises context [item] e := ⟨[], item, [], rfl, nofun, hraises⟩
      exact hlast.behind (hoperands.ok vs hvs)

/-- An expression fails with what the first in the order raises that has no value. -/
theorem eval_eq_error_iff {context : Context} {item : Item} {e : EvaluationError} :
    item.eval context = .error e ↔ FirstRaises context item.postorder e := by
  refine ⟨(follows_postorder context item).error e, fun h => ?_⟩
  cases hitem : item.eval context with
  | error e' =>
    rw [((follows_postorder context item).error e' hitem).unique h]
  | ok v =>
    obtain ⟨before, node, after, hnodes, -, hnode⟩ := h
    have hmem : node ∈ item.postorder := by simp [hnodes]
    obtain ⟨w, hw⟩ := (follows_postorder context item).ok v hitem node hmem
    exact nomatch hnode.eval_eq.symm.trans hw

/-! ## What the variables matter for -/

/-- An expression asks for the variables that occur in it and for no others. -/
theorem eval_eq_of_variables {context other : Context} (item : Item)
    (h : ∀ name column, .reference name column ∈ item.postorder → context name = other name) :
    item.eval context = item.eval other := by
  revert h
  refine of_operands (P := fun item => (∀ name column,
    .reference name column ∈ item.postorder → context name = other name) →
      item.eval context = item.eval other) (fun item ih h => ?_) item
  have hoperands : evalAll context item.operands = evalAll other item.operands := by
    have hmap : item.operands.map (eval context) = item.operands.map (eval other) := by
      refine List.map_congr_left fun operand hoperand =>
        ih operand hoperand fun name column hname => ?_
      refine h name column ?_
      rw [postorder_eq]
      exact List.mem_append_left _ (mem_postorderAll.2 ⟨operand, hoperand, hname⟩)
    rw [evalAll_eq_mapM, evalAll_eq_mapM, hmap]
  have hfinish : item.finish context = item.finish other := by
    funext vs
    cases item with
    | reference name column => rw [finish, finish, h name column (mem_postorder_self _)]
    | _ => rfl
  rw [eval_eq_finish, eval_eq_finish, hoperands, hfinish]

end Item

/-- **Evaluation is strict and goes from left to right.** If an expression has a value then every
expression inside it has one on its own. It fails with a failure exactly when, in the order of
evaluation, there is an expression before which all others have values on their own, and which fails
with just this failure on the values of its operands. Contexts that agree on the variables that
occur in the expression give it the same result. -/
theorem eval_strict (item : Item) (context : Context) :
    (∀ v, item.eval context = .ok v → ∀ part ∈ item.postorder, ∃ w, part.eval context = .ok w) ∧
    (∀ e, item.eval context = .error e ↔
      ∃ before node after, item.postorder = before ++ node :: after ∧
        (∀ part ∈ before, ∃ w, part.eval context = .ok w) ∧ node.Raises context e) ∧
    ∀ other : Context,
      (∀ name column, .reference name column ∈ item.postorder → context name = other name) →
        item.eval context = item.eval other :=
  ⟨(Item.follows_postorder context item).ok, fun _ => Item.eval_eq_error_iff,
    fun _ => item.eval_eq_of_variables⟩

-- the left operand decides nothing, and of the two failures the first one counts
example : (Item.binary .and (.value (.bool false)) (.call "issubstr".toList
      [.binary .div (.value (.int 1)) (.value (.int 0)) 0, .reference "missing".toList 0] 0) 0).eval
    .empty = .error .divisionByZero := by rfl

end SourcePreprocessor
