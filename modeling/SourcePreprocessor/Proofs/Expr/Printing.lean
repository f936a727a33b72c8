import SourcePreprocessor.Expr.Item
import SourcePreprocessor.Proofs.Expr.Lexing

/-!
# The tokens of a printed expression

The text of an expression is a row of tokens with blanks between some of them. `Item.tokens` gives
the tokens without the text, parentheses included, and `scans_text` says that the scan of the text
finds just these:

> `tokenize_text`: the text of an expression is scanned as the tokens of the expression, if its names
> are words of the language and its values are resolved.

The properties of expressions that matter here are properties of all their values and names
(`Item.All`).
-/

namespace SourcePreprocessor

/-- A name that is scanned as a name: the words of the booleans are not. -/
def IsWord (name : Text) : Prop :=
  isName name = true ∧ name ≠ "true".toList ∧ name ≠ "false".toList

instance : DecidablePred IsWord := fun name =>
  inferInstanceAs (Decidable (isName name = true ∧ name ≠ "true".toList ∧ name ≠ "false".toList))

theorem scans_name {name rest : Text} (h : IsWord name) (hrest : Apart rest) :
    Scans name [.name name] rest := by
  have hscans := scans_word h.1 hrest
  unfold nameToken at hscans
  rw [if_neg h.2.1, if_neg h.2.2] at hscans
  exact hscans

/-! ## Literals -/

/-- The tokens of a value's literal. -/
def Value.tokens : Value → List Token
  | .int n =>
    if n = Int64.minValue then
      [.symbol .openParen, .symbol .minus, .int Int64.maxValue, .symbol .minus, .int 1,
        .symbol .closeParen]
    else if n.toInt < 0 then [.symbol .minus, .int (-n)]
    else [.int n]
  | .float .nan =>
    [.symbol .openParen, .float (.zero false), .symbol .slash, .float (.zero false),
      .symbol .closeParen]
  | .float (.infinite false) =>
    [.symbol .openParen, .float (.ofInt 1), .symbol .slash, .float (.zero false),
      .symbol .closeParen]
  | .float (.infinite true) =>
    [.symbol .openParen, .symbol .minus, .float (.ofInt 1), .symbol .slash, .float (.zero false),
      .symbol .closeParen]
  | .float (.finite true units h) => [.symbol .minus, .float (.finite false units h)]
  | .float (.finite false units h) => [.float (.finite false units h)]
  | .str t => [.str t]
  | .bool b => [.bool b]
  | .unresolved => []

theorem apart_cons {c : Char} (h : isNamePart c = false) (t : Text) : Apart (c :: t) := by
  intro d u e
  obtain ⟨rfl, -⟩ := List.cons.inj e
  exact h

theorem scans_float {units : Nat} (h : Number.Representable units) {rest : Text}
    (hrest : Apart rest) :
    Scans (Value.floatText (.finite false units h)) [.float (.finite false units h)] rest := by
  obtain ⟨whole, fraction, htext, hne, hwhole, hfraction, hread⟩ := Number.exists_floatText h
  have hscans := scans_point hne hwhole hfraction hrest
  rw [hread] at hscans
  rw [htext]
  exact hscans

/-- The text of a number with a sign is a minus and the text of the number without it. -/
theorem floatText_negative {units : Nat} (h : Number.Representable units) :
    Value.floatText (.finite true units h) = '-' :: Value.floatText (.finite false units h) := by
  have htext : (Number.Binary32.finite true units h).text =
      '-' :: (Number.Binary32.finite false units h).text := rfl
  unfold Value.floatText
  rw [htext, List.all_cons]
  show (if (Number.Binary32.finite false units h).text.all (fun c => c.isDigit || c = '-') = true
    then _ else _) = _
  by_cases hall : (Number.Binary32.finite false units h).text.all (fun c => c.isDigit || c = '-') = true
  · rw [if_pos hall, if_pos hall]
    rfl
  · rw [if_neg hall, if_neg hall]

theorem scans_bool (b : Bool) {rest : Text} (hrest : Apart rest) :
    Scans (Value.boolText b) [.bool b] rest := by
  cases b with
  | false => exact scans_word (by decide) hrest
  | true => exact scans_word (by decide) hrest

theorem Scans.minus {t rest : Text} {tokens : List Token} (h : Scans t tokens rest) :
    Scans ('-' :: t) (.symbol .minus :: tokens) rest :=
  Scans.append (show Scans ['-'] [.symbol .minus] (t ++ rest) from scans_symbol rfl) h

theorem Scans.paren {t rest : Text} {tokens : List Token} (h : Scans t tokens (')' :: rest)) :
    Scans ('(' :: t ++ [')']) (.symbol .openParen :: tokens ++ [.symbol .closeParen]) rest := by
  have hopen : Scans ['('] [.symbol .openParen] (t ++ ([')'] ++ rest)) := scans_symbol rfl
  have hclose : Scans [')'] [.symbol .closeParen] rest := scans_symbol rfl
  exact (hopen.append h).append hclose

theorem Scans.binary (op : BinaryOperator) {t u rest : Text} {tokens others : List Token}
    (ht : ∀ rest, Apart rest → Scans t tokens rest) (hu : Scans u others rest) :
    Scans (t ++ ' ' :: op.symbol.text ++ ' ' :: u) (tokens ++ .symbol op.symbol :: others) rest := by
  have hsymbol : Scans op.symbol.text [.symbol op.symbol] (' ' :: u ++ rest) :=
    scans_symbol (symbolAt?_text op.symbol nofun)
  have hoperator : Scans (' ' :: op.symbol.text) [.symbol op.symbol] (' ' :: u ++ rest) :=
    (scans_blank _).append hsymbol
  have hleft := (ht _ (apart_cons rfl _)).append hoperator
  have hright : Scans (' ' :: u) others rest := (scans_blank _).append hu
  have hboth := hleft.append hright
  rw [List.append_assoc tokens] at hboth
  exact hboth

theorem Scans.comma {t u rest : Text} {tokens others : List Token}
    (ht : ∀ rest, Apart rest → Scans t tokens rest) (hu : Scans u others rest) :
    Scans (t ++ [',', ' '] ++ u) (tokens ++ .symbol .comma :: others) rest := by
  have hsymbol : Scans [','] [.symbol .comma] (' ' :: u ++ rest) := scans_symbol rfl
  have hleft := (ht _ (apart_cons rfl _)).append hsymbol
  have hright : Scans (' ' :: u) others rest := (scans_blank _).append hu
  have hboth := hleft.append hright
  rw [List.append_assoc, List.append_assoc tokens] at hboth
  rw [List.append_assoc]
  exact hboth

theorem scans_zero {rest : Text} (hrest : Apart rest) :
    Scans "0.0".toList [.float (.zero false)] rest := by
  have hread : Number.Binary32.ofNumeral false (['0'] ++ '.' :: ['0']) = .zero false := by
    decide +kernel
  rw [← hread]
  exact scans_point (List.cons_ne_nil _ _) (List.forall_mem_singleton.2 rfl)
    (List.forall_mem_singleton.2 rfl) hrest

theorem scans_one {rest : Text} (hrest : Apart rest) :
    Scans "1.0".toList [.float (.ofInt 1)] rest := by
  have hread : Number.Binary32.ofNumeral false (['1'] ++ '.' :: ['0']) = .ofInt 1 := by
    decide +kernel
  rw [← hread]
  exact scans_point (List.cons_ne_nil _ _) (List.forall_mem_singleton.2 rfl)
    (List.forall_mem_singleton.2 rfl) hrest

/-- Every integer but the smallest has a negative. -/
theorem toInt_neg_of_ne {n : Int64} (h : n ≠ Int64.minValue) : (-n).toInt = -n.toInt := by
  have hlow := Int64.minValue_le_toInt n
  have hhigh := Int64.toInt_le n
  have hne : n.toInt ≠ Int64.minValue.toInt := fun e => h (Int64.toInt_inj.1 e)
  rw [Int64.toInt_minValue] at hlow hne
  rw [Int64.toInt_maxValue] at hhigh
  rw [Int64.toInt_neg]
  exact Int.bmod_eq_of_le (by omega) (by omega)

theorem ne_minValue_of_nonneg {n : Int64} (h : 0 ≤ n.toInt) : n ≠ Int64.minValue := by
  rintro rfl
  revert h
  decide

/-- An integer without a sign is its own token. -/
theorem Value.tokens_nonneg {n : Int64} (h : 0 ≤ n.toInt) : tokens (.int n) = [.int n] := by
  rw [tokens, if_neg (ne_minValue_of_nonneg h), if_neg (by omega)]

theorem scans_int (n : Int64) {rest : Text} (hrest : Apart rest) :
    Scans (Value.int n).literal (Value.int n).tokens rest := by
  show Scans (if n = Int64.minValue then _ else _)
    (if n = Int64.minValue then _ else if n.toInt < 0 then _ else _) rest
  by_cases hmin : n = Int64.minValue
  -- the smallest integer has no numeral: it is written as a difference
  · rw [if_pos hmin, if_pos hmin]
    have hlargest : ∀ rest, Apart rest →
        Scans ('-' :: Number.decimal 9223372036854775807) [.symbol .minus, .int Int64.maxValue] rest :=
      fun rest hrest => (scans_decimal (by decide) hrest).minus
    have hone : Scans (Number.decimal 1) [.int 1] (')' :: rest) :=
      scans_decimal (by decide) (apart_cons rfl rest)
    exact (Scans.binary .sub hlargest hone).paren
  · rw [if_neg hmin, if_neg hmin]
    cases hn : n.toInt with
    | ofNat k =>
      rw [if_neg (show ¬ Int.ofNat k < 0 from Int.not_lt.2 (Int.natCast_nonneg k))]
      exact scans_decimal hn hrest
    | negSucc k =>
      rw [if_pos (by omega)]
      refine (scans_decimal ?_ hrest).minus
      rw [toInt_neg_of_ne hmin, hn]
      rfl

/-- The literal of a resolved value is scanned as its tokens. -/
theorem scans_literal {v : Value} (hv : v ≠ .unresolved) {rest : Text} (hrest : Apart rest) :
    Scans v.literal v.tokens rest := by
  match v with
  | .int n => exact scans_int n hrest
  | .float .nan =>
    exact (Scans.binary .div (fun rest => scans_zero) (scans_zero (apart_cons rfl rest))).paren
  | .float (.infinite false) =>
    exact (Scans.binary .div (fun rest => scans_one) (scans_zero (apart_cons rfl rest))).paren
  | .float (.infinite true) =>
    exact (Scans.binary .div (fun rest h => (scans_one h).minus)
      (scans_zero (apart_cons rfl rest))).paren
  | .float (.finite false units h) => exact scans_float h hrest
  | .float (.finite true units h) =>
    show Scans (Value.floatText (.finite true units h)) _ rest
    rw [floatText_negative]
    exact (scans_float h hrest).minus
  | .str t => exact scans_quote t rest
  | .bool b => exact scans_bool b hrest
  | .unresolved => exact absurd rfl hv

/-! ## Expressions -/

namespace Item

mutual

/-- All values and all names of the expression have these properties. -/
def All (value : Value → Prop) (name : Text → Prop) : Item → Prop
  | .value v => value v
  | .reference n _ => name n
  | .call n arguments _ => name n ∧ AllOf value name arguments
  | .unary _ operand _ => operand.All value name
  | .binary _ left right _ => left.All value name ∧ right.All value name

/-- All values and all names of the expressions have these properties. -/
def AllOf (value : Value → Prop) (name : Text → Prop) : List Item → Prop
  | [] => True
  | item :: items => item.All value name ∧ AllOf value name items

end

section Decidable

variable (value : Value → Prop) (name : Text → Prop) [DecidablePred value] [DecidablePred name]

mutual

/-- The check goes through the expression. -/
def decidableAll : (item : Item) → Decidable (item.All value name)
  | .value v => inferInstanceAs (Decidable (value v))
  | .reference n _ => inferInstanceAs (Decidable (name n))
  | .call n arguments _ =>
    have := decidableAllOf arguments
    inferInstanceAs (Decidable (name n ∧ AllOf value name arguments))
  | .unary _ operand _ => decidableAll operand
  | .binary _ left right _ =>
    have := decidableAll left
    have := decidableAll right
    inferInstanceAs (Decidable (left.All value name ∧ right.All value name))

/-- The check goes through the expressions. -/
def decidableAllOf : (items : List Item) → Decidable (AllOf value name items)
  | [] => inferInstanceAs (Decidable True)
  | item :: items =>
    have := decidableAll item
    have := decidableAllOf items
    inferInstanceAs (Decidable (item.All value name ∧ AllOf value name items))

end

instance : DecidablePred (All value name) := decidableAll value name

end Decidable

/-- The tokens, in parentheses when asked to. -/
def parenthesizeTokens (wanted : Bool) (tokens : List Token) : List Token :=
  if wanted then .symbol .openParen :: tokens ++ [.symbol .closeParen] else tokens

mutual

/-- The tokens of an expression's text. -/
def tokens : Item → List Token
  | .value v => v.tokens
  | .reference name _ => [.name name]
  | .call name arguments _ =>
    .name name :: (.symbol .openParen :: argumentTokens arguments ++ [.symbol .closeParen])
  | .unary op operand _ =>
    .symbol op.symbol :: parenthesizeTokens (operand.priority < .unary) (tokens operand)
  | .binary op left right _ =>
    parenthesizeTokens (left.priority < op.priority) (tokens left) ++
      .symbol op.symbol :: parenthesizeTokens (right.priority ≤ op.priority) (tokens right)

/-- The tokens of the arguments of a call. -/
def argumentTokens : List Item → List Token
  | [] => []
  | [item] => tokens item
  | item :: next :: items => tokens item ++ .symbol .comma :: argumentTokens (next :: items)

end

/-- The values are resolved and the names are words. -/
def Printable : Item → Prop := All (· ≠ .unresolved) IsWord

end Item

/-- The text has a first character, and that is no equals sign. -/
def Begins (t : Text) : Prop := ∃ c u, t = c :: u ∧ c ≠ '='

theorem Begins.append {t : Text} (h : Begins t) (u : Text) : Begins (t ++ u) := by
  obtain ⟨c, v, rfl, hc⟩ := h
  exact ⟨c, v ++ u, rfl, hc⟩

theorem Begins.ne {t : Text} (h : Begins t) (u : Text) : t ≠ '=' :: u := by
  obtain ⟨c, v, rfl, hc⟩ := h
  intro e
  exact hc (List.cons.inj e).1

theorem begins_of_digit {c : Char} (h : c.isDigit = true) (t : Text) : Begins (c :: t) := by
  refine ⟨c, t, rfl, ?_⟩
  rintro rfl
  nomatch h

/-- The literal of a resolved value does not start with an equals sign. -/
theorem begins_literal {v : Value} (hv : v ≠ .unresolved) : Begins v.literal := by
  match v with
  | .int n =>
    show Begins (if n = Int64.minValue then _ else Number.signedDecimal n.toInt)
    split
    · exact ⟨'(', _, rfl, by decide⟩
    · cases n.toInt with
      | ofNat k =>
        obtain ⟨c, t, ht, hc⟩ := Number.exists_decimal k
        show Begins (Number.decimal k)
        rw [ht]
        exact begins_of_digit hc t
      | negSucc k => exact ⟨'-', _, rfl, by decide⟩
  | .float .nan => exact ⟨'(', _, rfl, by decide⟩
  | .float (.infinite false) => exact ⟨'(', _, rfl, by decide⟩
  | .float (.infinite true) => exact ⟨'(', _, rfl, by decide⟩
  | .float (.finite false units h) =>
    obtain ⟨whole, fraction, htext, hne, hwhole, -⟩ := Number.exists_floatText h
    obtain ⟨c, t, rfl⟩ := List.exists_cons_of_ne_nil hne
    show Begins (Value.floatText (.finite false units h))
    rw [htext]
    exact (begins_of_digit (hwhole c List.mem_cons_self) t).append _
  | .float (.finite true units h) => exact ⟨'-', _, floatText_negative h, by decide⟩
  | .str t => exact ⟨'"', _, rfl, by decide⟩
  | .bool false => exact ⟨'f', _, rfl, by decide⟩
  | .bool true => exact ⟨'t', _, rfl, by decide⟩
  | .unresolved => exact absurd rfl hv

theorem begins_word {name : Text} (h : IsWord name) : Begins name := by
  match name with
  | [] => nomatch h.1
  | c :: t =>
    refine ⟨c, t, rfl, ?_⟩
    rintro rfl
    nomatch h.1

namespace Item

theorem begins_parenthesize (wanted : Bool) {t : Text} (h : Begins t) :
    Begins (parenthesize wanted t) := by
  cases wanted with
  | false => exact h
  | true => exact ⟨'(', _, rfl, by decide⟩

/-- The text of an expression does not start with an equals sign. -/
theorem begins_text (item : Item) (h : item.Printable) : Begins item.text := by
  match item, h with
  | .value v, h =>
    rw [text]
    exact begins_literal h
  | .reference name _, h =>
    rw [text]
    exact begins_word h
  | .call name arguments _, h =>
    rw [text, List.append_assoc]
    exact (begins_word h.1).append _
  | .unary op operand _, h =>
    rw [text]
    cases op with
    | not => exact ⟨'!', _, rfl, by decide⟩
    | negate => exact ⟨'-', _, rfl, by decide⟩
  | .binary op left right _, h =>
    rw [text, List.append_assoc]
    exact (begins_parenthesize _ (begins_text left h.1)).append _

theorem scans_parenthesize (wanted : Bool) {t : Text} {tokens : List Token}
    (h : ∀ rest, Apart rest → Scans t tokens rest) {rest : Text} (hrest : Apart rest) :
    Scans (parenthesize wanted t) (parenthesizeTokens wanted tokens) rest := by
  unfold parenthesize parenthesizeTokens
  cases wanted with
  | false => exact h rest hrest
  | true => exact (h (')' :: rest) (apart_cons rfl rest)).paren

mutual

/-- The text of an expression is scanned as its tokens. -/
theorem scans_text (item : Item) (h : item.Printable) {rest : Text} (hrest : Apart rest) :
    Scans item.text item.tokens rest := by
  match item, h with
  | .value v, h =>
    rw [text, tokens]
    exact scans_literal h hrest
  | .reference name _, h =>
    rw [text, tokens]
    exact scans_name h hrest
  | .call name arguments _, h =>
    have harguments := (scans_arguments arguments h.2 rest).paren
    have hname : Scans name [.name name]
        ('(' :: Text.join [',', ' '] (texts arguments) ++ [')'] ++ rest) :=
      scans_name h.1 (apart_cons rfl _)
    rw [text, tokens, List.append_assoc]
    exact hname.append harguments
  | .unary op operand _, h =>
    -- the operand follows its operator at once, and must not make another symbol of it
    have hoperand := scans_parenthesize (operand.priority < .unary)
      (fun rest hrest => scans_text operand h hrest) hrest
    have hbegins := begins_parenthesize (operand.priority < .unary) (begins_text operand h)
    rw [text, tokens]
    exact Scans.append (scans_symbol (symbolAt?_text op.symbol (hbegins.append rest).ne)) hoperand
  | .binary op left right _, h =>
    have hleft : ∀ rest, Apart rest → Scans (parenthesize (left.priority < op.priority) left.text)
        (parenthesizeTokens (left.priority < op.priority) left.tokens) rest := fun rest hrest =>
      scans_parenthesize _ (fun rest hrest => scans_text left h.1 hrest) hrest
    have hright := scans_parenthesize (right.priority ≤ op.priority)
      (fun rest hrest => scans_text right h.2 hrest) hrest
    rw [text, tokens]
    exact Scans.binary op hleft hright

theorem scans_arguments (items : List Item) (h : AllOf (· ≠ .unresolved) IsWord items)
    (rest : Text) :
    Scans (Text.join [',', ' '] (texts items)) (argumentTokens items) (')' :: rest) := by
  match items, h with
  | [], h => exact scans_nil _
  | [item], h =>
    rw [argumentTokens]
    exact scans_text item h.1 (apart_cons rfl rest)
  | item :: next :: items, h =>
    have hmore := scans_arguments (next :: items) h.2 rest
    rw [argumentTokens]
    exact Scans.comma (fun rest hrest => scans_text item h.1 hrest) hmore

end

/-- The text of an expression is scanned as its tokens. -/
theorem tokenize_text {item : Item} (h : item.Printable) :
    ∃ lexemes, tokenize item.text = .ok lexemes ∧ lexemes.map (·.token) = item.tokens := by
  obtain ⟨lexemes, htokens, hscan⟩ := scans_text item h (show Apart [] from nofun) 1
  refine ⟨lexemes, ?_, htokens⟩
  rw [List.append_nil] at hscan
  unfold tokenize
  rw [hscan]
  show Except.ok (lexemes ++ []) = _
  rw [List.append_nil]

end Item

end SourcePreprocessor
