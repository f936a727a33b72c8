import SourcePreprocessor.Expr.Eval
import SourcePreprocessor.Proofs.Expr.RoundTrip

/-!
# Literals evaluate to their values

A value is written as an expression that gives it back. For most values that expression is one
token, but no token has a sign, so a negative number is written as an operator and its operand, and
the numbers that have no numeral at all are computed: the smallest integer as a difference, the
infinities and the not-a-number as quotients. `Value.reading` is the expression that the parser
makes of a literal, and two facts about it meet in the main statement:

> `Value.tokens_eq`: the literal is scanned as the tokens of the reading, in parentheses where the
> value is computed;
> `Value.eval_reading`: the reading evaluates to the value, whatever the variables are;
> `evaluate_literal`: so the literal of every resolved value evaluates to the value.
-/

namespace SourcePreprocessor

open Number (Binary32)

/-! ## Columns do not count -/

namespace Item

mutual

/-- The value of an expression does not depend on its columns. -/
theorem eval_eraseColumns (context : Context) (item : Item) :
    item.eraseColumns.eval context = item.eval context := by
  match item with
  | .value v => rfl
  | .reference name _ => rfl
  | .call name arguments _ =>
    rw [eraseColumns, eval, eval, evalAll_eraseAllColumns context arguments]
  | .unary op operand _ => rw [eraseColumns, eval, eval, eval_eraseColumns context operand]
  | .binary op left right _ =>
    rw [eraseColumns, eval, eval, eval_eraseColumns context left, eval_eraseColumns context right]

theorem evalAll_eraseAllColumns (context : Context) (items : List Item) :
    evalAll context (eraseAllColumns items) = evalAll context items := by
  match items with
  | [] => rfl
  | item :: items =>
    rw [eraseAllColumns, evalAll, evalAll, eval_eraseColumns context item,
      evalAll_eraseAllColumns context items]

end

end Item

/-! ## The expression behind a literal -/

namespace Value

/-- Whether the value has no numeral, not even after a sign. -/
def isComputed : Value → Bool
  | .int n => n = Int64.minValue
  | .float .nan | .float (.infinite _) => true
  | _ => false

/-- The expression that the literal of an integer is read as. -/
def readingInt (n : Int64) : Item :=
  if n = Int64.minValue then
    .binary .sub (.unary .negate (.value (.int Int64.maxValue)) 0) (.value (.int 1)) 0
  else if n.toInt < 0 then .unary .negate (.value (.int (-n))) 0
  else .value (.int n)

/-- The expression that the literal of a number is read as. -/
def readingFloat : Binary32 → Item
  | .nan => .binary .div (.value (.float (.zero false))) (.value (.float (.zero false))) 0
  | .infinite false => .binary .div (.value (.float (.ofInt 1))) (.value (.float (.zero false))) 0
  | .infinite true =>
    .binary .div (.unary .negate (.value (.float (.ofInt 1))) 0) (.value (.float (.zero false))) 0
  | .finite true units h => .unary .negate (.value (.float (.finite false units h))) 0
  | .finite false units h => .value (.float (.finite false units h))

/-- The expression that the literal of a value is read as. -/
def reading : Value → Item
  | .int n => readingInt n
  | .float x => readingFloat x
  | v => .value v

theorem isComputed_int (n : Int64) : isComputed (.int n) = decide (n = Int64.minValue) := rfl

theorem reading_int (n : Int64) : reading (.int n) = readingInt n := rfl

theorem reading_float (x : Binary32) : reading (.float x) = readingFloat x := rfl

/-- One is a finite number without a sign. -/
theorem exists_one : ∃ units h, Binary32.ofInt 1 = .finite false units h :=
  ⟨Number.scale, by decide +kernel, by decide +kernel⟩

theorem tokens_one : tokens (.float (.ofInt 1)) = [.float (.ofInt 1)] := by
  obtain ⟨units, h, hone⟩ := exists_one
  rw [hone]
  rfl

/-- A negative integer but the smallest is read as the negative of a positive one. -/
theorem toInt_neg_pos {n : Int64} (hmin : n ≠ Int64.minValue) (hneg : n.toInt < 0) :
    0 < (-n).toInt := by
  rw [toInt_neg_of_ne hmin]
  omega

theorem tokens_eq_int (n : Int64) :
    tokens (.int n) =
      Item.parenthesizeTokens (isComputed (.int n)) (reading (.int n)).tokens := by
  by_cases hmin : n = Int64.minValue
  · subst hmin
    decide +kernel
  · by_cases hneg : n.toInt < 0
    · rw [tokens, isComputed_int, reading_int, readingInt, if_neg hmin, if_neg hmin, if_pos hneg,
        if_pos hneg,
        decide_eq_false hmin, Item.tokens, Item.tokens,
        tokens_nonneg (Int.le_of_lt (toInt_neg_pos hmin hneg))]
      rfl
    · rw [isComputed_int, reading_int, readingInt, if_neg hmin, if_neg hneg, decide_eq_false hmin,
        Item.tokens]
      rfl

/-- The tokens of a literal are those of its reading. -/
theorem tokens_eq (v : Value) :
    v.tokens = Item.parenthesizeTokens v.isComputed v.reading.tokens := by
  match v with
  | .int n => exact tokens_eq_int n
  | .float .nan => rfl
  | .float (.infinite false) =>
    rw [reading_float, readingFloat, Item.tokens, Item.tokens, tokens_one]
    rfl
  | .float (.infinite true) =>
    rw [reading_float, readingFloat, Item.tokens, Item.tokens, Item.tokens, Item.tokens, tokens_one]
    rfl
  | .float (.finite true units h) => rfl
  | .float (.finite false units h) => rfl
  | .str t => rfl
  | .bool b => rfl
  | .unresolved => rfl

/-- The literals and names of a reading are written without signs. -/
theorem reading_plain {v : Value} (hv : v ≠ .unresolved) :
    v.reading.All IsPlain IsPlainName := by
  match v with
  | .int n =>
    rw [reading_int, readingInt]
    by_cases hmin : n = Int64.minValue
    · rw [if_pos hmin]
      exact ⟨show 0 ≤ Int64.maxValue.toInt by decide, show 0 ≤ Int64.toInt 1 by decide⟩
    · rw [if_neg hmin]
      by_cases hneg : n.toInt < 0
      · rw [if_pos hneg]
        exact Int.le_of_lt (toInt_neg_pos hmin hneg)
      · rw [if_neg hneg]
        exact Int.not_lt.1 hneg
  | .float .nan => exact ⟨rfl, rfl⟩
  | .float (.infinite false) =>
    obtain ⟨units, h, hone⟩ := exists_one
    rw [reading_float, readingFloat, hone]
    exact ⟨rfl, rfl⟩
  | .float (.infinite true) =>
    obtain ⟨units, h, hone⟩ := exists_one
    rw [reading_float, readingFloat, hone]
    exact ⟨rfl, rfl⟩
  | .float (.finite true units h) => rfl
  | .float (.finite false units h) => rfl
  | .str t => trivial
  | .bool b => trivial
  | .unresolved => exact absurd rfl hv

/-- The reading of a negative integer negates back to it. -/
theorem eval_negate {n : Int64} (hmin : n ≠ Int64.minValue) (context : Context) :
    (Item.unary .negate (.value (.int (-n))) 0).eval context = .ok (.int n) := by
  have hnegate : Number.neg? (-n) = some n := by
    rw [Number.neg?, toInt_neg_of_ne hmin, Int.neg_neg]
    exact Number.narrow?_toInt n
  show fitting .minus (Number.neg? (-n)) = _
  rw [hnegate]
  rfl

/-- The reading of a literal evaluates to the value, whatever the variables are. -/
theorem eval_reading (v : Value) (context : Context) : v.reading.eval context = .ok v := by
  match v with
  | .int n =>
    rw [reading_int, readingInt]
    by_cases hmin : n = Int64.minValue
    -- the difference is exact: both steps stay in the range
    · rw [if_pos hmin, hmin]
      show (fitting .minus (Number.neg? Int64.maxValue) >>= fun l =>
        (Operator.binary .sub).apply [l, .int 1]) = _
      have hlargest : Number.neg? Int64.maxValue = some (-Int64.maxValue) := by decide
      have hsmallest : Number.sub? (-Int64.maxValue) 1 = some Int64.minValue := by decide
      rw [hlargest]
      show fitting .minus (Number.sub? (-Int64.maxValue) 1) = _
      rw [hsmallest]
      rfl
    · rw [if_neg hmin]
      by_cases hneg : n.toInt < 0
      · rw [if_pos hneg]
        exact eval_negate hmin context
      · rw [if_neg hneg]
        rfl
  | .float .nan => rfl
  | .float (.infinite false) =>
    have hquotient : (Binary32.ofInt 1).div (.zero false) = .infinite false := by decide +kernel
    show Except.ok (Value.float ((Binary32.ofInt 1).div (.zero false))) = _
    rw [hquotient]
  | .float (.infinite true) =>
    have hquotient : (Binary32.ofInt 1).neg.div (.zero false) = .infinite true := by decide +kernel
    show Except.ok (Value.float ((Binary32.ofInt 1).neg.div (.zero false))) = _
    rw [hquotient]
  | .float (.finite true units h) => rfl
  | .float (.finite false units h) => rfl
  | .str t => rfl
  | .bool b => rfl
  | .unresolved => rfl

/-- A value that is not computed is read as a literal, at most after a sign. -/
theorem rank_reading {v : Value} (h : v.isComputed = false) : 4 ≤ v.reading.priority.rank := by
  match v with
  | .int n =>
    rw [isComputed_int, decide_eq_false_iff_not] at h
    rw [reading_int, readingInt, if_neg h]
    split
    · exact Nat.le_refl 4
    · exact Nat.le_succ 4
  | .float .nan | .float (.infinite _) => nomatch h
  | .float (.finite true units _) => exact Nat.le_refl 4
  | .float (.finite false units _) => exact Nat.le_succ 4
  | .str t | .bool b | .unresolved => exact Nat.le_succ 4

end Value

/-! ## The round trip of literals -/

/-- Literals are read as their readings, which have parentheses unless they hold together. -/
theorem Grammar.readAs_reading : ReadAs (· ≠ .unresolved) Value.reading := by
  intro v hv ls hls
  rw [Value.tokens_eq] at hls
  exact tier_of_parenthesizeTokens
    (fun ls hls => tier_of_tokens v.reading (Value.reading_plain hv) hls) (Nat.le_refl 4)
    Value.rank_reading hls

/-- The text of an expression parses to the expression with its literals read, up to columns. -/
theorem parse_reading {item : Item} (h : item.All (· ≠ .unresolved) IsPlainName) : ∃ e,
    parse item.text = .ok e ∧ e.root.eraseColumns = (item.expand Value.reading).eraseColumns := by
  have hprintable : item.Printable :=
    Item.All.combine (fun _ hv _ => hv) (fun _ hname _ => hname.1) item h h
  obtain ⟨ls, hscan, hls⟩ := Item.tokenize_text hprintable
  obtain ⟨found, hfound, herase⟩ := Grammar.tier_of_expand Grammar.readAs_reading item h hls
  have hderives : Derives ls found := hfound.loosen (Nat.zero_le _)
  exact ⟨⟨found, item.text⟩, parse_of_derives hscan hderives, herase⟩

/-- The literal of a resolved value parses to its reading, up to columns. -/
theorem parse_literal {v : Value} (hv : v ≠ .unresolved) :
    ∃ e, parse v.literal = .ok e ∧ e.root.eraseColumns = v.reading.eraseColumns := by
  have hparse := parse_reading (show (Item.value v).All (· ≠ .unresolved) IsPlainName from hv)
  rw [Item.text, Item.expand] at hparse
  exact hparse

/-- **A literal evaluates to its value.** The text that is written for an integer, a floating point
number, a text or a boolean is an expression without variables, and its value is the one that was
written: the smallest integer, negative zero, the infinities and the not-a-number included. -/
theorem evaluate_literal (v : Value) (hv : v ≠ .unresolved) : evaluate v.literal = .ok v := by
  obtain ⟨e, hparse, herase⟩ := parse_literal hv
  have heval : e.root.eval .empty = .ok v := by
    calc e.root.eval .empty = e.root.eraseColumns.eval .empty :=
          (Item.eval_eraseColumns .empty e.root).symm
      _ = v.reading.eraseColumns.eval .empty := by rw [herase]
      _ = v.reading.eval .empty := Item.eval_eraseColumns .empty v.reading
      _ = .ok v := Value.eval_reading v .empty
  refine bind_eq_ok_iff.2 ⟨e, mapError_eq_ok_iff.2 hparse, ?_⟩
  exact mapError_eq_ok_iff.2 heval

/-- Quotes, a backslash, control characters of both ranges, and a character beyond the escapes. -/
theorem evaluate_literal_escapes :
    Value.literal (.str "\"\\\n\x00\u0085😀".toList) =
        "\"\\\"\\\\\\n\\u0000\\u0085😀\"".toList ∧
      evaluate "\"\\\"\\\\\\n\\u0000\\u0085😀\"".toList =
        .ok (.str "\"\\\n\x00\u0085😀".toList) := by
  have hliteral : Value.literal (.str "\"\\\n\x00\u0085😀".toList) =
      "\"\\\"\\\\\\n\\u0000\\u0085😀\"".toList := by decide +kernel
  refine ⟨hliteral, ?_⟩
  rw [← hliteral]
  exact evaluate_literal _ nofun

end SourcePreprocessor
