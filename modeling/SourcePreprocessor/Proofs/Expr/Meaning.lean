import SourcePreprocessor.Proofs.Expr.Literal

/-!
# Printing keeps the meaning

An expression need not come from a text. It can hold literals that no token denotes, and then its
text is not read as the same expression: a negative number comes back as an operator and its
operand, and the numbers without a numeral come back as differences and quotients. In the expression
a literal holds together more tightly than anything else, while what it is read as may not, so the
text has parentheses where the expression has none.

What comes back is the expression with each literal replaced by its reading (`parse_reading`), and
a reading has the value that it stands for wherever it is put:

> `eval_expand_reading`: readings in the place of literals change no value and no failure;
> `text_keeps_meaning`: so the text of an expression parses, and what it gives evaluates like the
> expression, whatever the variables are.
-/

namespace SourcePreprocessor

namespace Item

mutual

/-- With readings in the place of its literals an expression has the same value, or fails in the
same way. -/
theorem eval_expand_reading (context : Context) (item : Item) :
    (item.expand Value.reading).eval context = item.eval context := by
  match item with
  | .value v =>
    rw [expand, eval]
    exact Value.eval_reading v context
  | .reference name _ => rfl
  | .call name arguments _ =>
    rw [expand, eval, eval, evalAll_expandAll_reading context arguments]
  | .unary op operand _ => rw [expand, eval, eval, eval_expand_reading context operand]
  | .binary op left right _ =>
    rw [expand, eval, eval, eval_expand_reading context left, eval_expand_reading context right]

theorem evalAll_expandAll_reading (context : Context) (items : List Item) :
    evalAll context (expandAll Value.reading items) = evalAll context items := by
  match items with
  | [] => rfl
  | item :: items =>
    rw [expandAll, evalAll, evalAll, eval_expand_reading context item,
      evalAll_expandAll_reading context items]

end

end Item

/-- **Printing keeps the meaning.** Let the names of an expression be words in lower case and its
values resolved, whatever else they are: negative, the smallest integer, negative zero, infinite or
no number. Then its text parses, and what it gives has the same value as the expression or fails for
the same reason, whatever the variables are. -/
theorem text_keeps_meaning (item : Item) (h : item.All (· ≠ .unresolved) IsPlainName) :
    ∃ e, parse item.text = .ok e ∧ ∀ context : Context,
      e.eval context = (item.eval context).mapError .evaluation := by
  obtain ⟨e, hparse, herase⟩ := parse_reading h
  refine ⟨e, hparse, fun context => ?_⟩
  have heval : e.root.eval context = item.eval context := by
    calc e.root.eval context = e.root.eraseColumns.eval context :=
          (Item.eval_eraseColumns context e.root).symm
      _ = (item.expand Value.reading).eraseColumns.eval context := by rw [herase]
      _ = (item.expand Value.reading).eval context := Item.eval_eraseColumns context _
      _ = item.eval context := Item.eval_expand_reading context item
  unfold Expression.eval
  rw [heval]

/-- The smallest integer before and after operators of its own priority, a negation of a negative
number, and an infinity in a call. -/
def signedItem : Item :=
  .binary .sub
    (.binary .add (.value (.int Int64.minValue)) (.unary .negate (.value (.int (-5))) 0) 0)
    (.binary .sub (.value (.int Int64.minValue))
      (.call "f".toList [.value (.float (.infinite true)), .reference "x".toList 0] 0) 0) 0

/-- Its text has parentheses for the computed numbers, and it parses to an expression with the same
meaning. -/
theorem signedItem_keeps_meaning :
    signedItem.text = ("(-9223372036854775807 - 1) + --5 - ((-9223372036854775807 - 1) - " ++
      "f((-1.0 / 0.0), x))").toList ∧
    ∃ e, parse signedItem.text = .ok e ∧ ∀ context : Context,
      e.eval context = (signedItem.eval context).mapError .evaluation := by
  have hnames : IsPlainName "f".toList ∧ IsPlainName "x".toList := by
    unfold IsPlainName
    decide +kernel
  refine ⟨by decide +kernel, text_keeps_meaning signedItem ?_⟩
  exact ⟨⟨nofun, nofun⟩, nofun, hnames.1, nofun, hnames.2, trivial⟩

end SourcePreprocessor
