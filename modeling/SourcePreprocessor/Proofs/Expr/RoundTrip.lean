import SourcePreprocessor.Proofs.Expr.Grammar
import SourcePreprocessor.Proofs.Expr.Printing

/-!
# Printing undoes parsing

A printed expression has parentheses where priorities need them: around a left operand that holds
together less tightly than its operator, around a right operand that does not hold together more
tightly, and around an operand of a unary operator unless it is a primary or unary one. The grammar
has a tier for each priority, and an expression of some priority is derived from there on:

> `tier_of_tokens`: lexemes with the tokens of an expression make up that expression, up to columns,
> in the tier of its priority.

The literals and names of an expression that was parsed are of a special form (`parsed_of_parse`): no
literal has a sign, and names are in lower case. Two kinds of them do not survive printing: a name
that reads as a boolean, which only another spelling of it can have given, and the infinity that a
numeral beyond all numbers gives. Every other expression does:

> `parse_text`: the text of a parsed expression parses, and gives the same expression up to columns
> and the same text.
-/

namespace SourcePreprocessor

namespace Item

mutual

/-- The expression with all its columns set to zero. -/
def eraseColumns : Item → Item
  | .value v => .value v
  | .reference name _ => .reference name 0
  | .call name arguments _ => .call name (eraseAllColumns arguments) 0
  | .unary op operand _ => .unary op (eraseColumns operand) 0
  | .binary op left right _ => .binary op (eraseColumns left) (eraseColumns right) 0

/-- The expressions with all their columns set to zero. -/
def eraseAllColumns : List Item → List Item
  | [] => []
  | item :: items => eraseColumns item :: eraseAllColumns items

end

theorem priority_eraseColumns (item : Item) : item.eraseColumns.priority = item.priority := by
  cases item <;> rfl

mutual

theorem text_eraseColumns (item : Item) : item.eraseColumns.text = item.text := by
  match item with
  | .value v => rfl
  | .reference name _ => rfl
  | .call name arguments _ => rw [eraseColumns, text, text, texts_eraseAllColumns arguments]
  | .unary op operand _ =>
    rw [eraseColumns, text, text, priority_eraseColumns, text_eraseColumns operand]
  | .binary op left right _ =>
    rw [eraseColumns, text, text, priority_eraseColumns, priority_eraseColumns,
      text_eraseColumns left, text_eraseColumns right]

theorem texts_eraseAllColumns (items : List Item) : texts (eraseAllColumns items) = texts items := by
  match items with
  | [] => rfl
  | item :: items =>
    rw [eraseAllColumns, texts, texts, text_eraseColumns item, texts_eraseAllColumns items]

end

mutual

/-- The expression with an expression in the place of each value. -/
def expand (meaning : Value → Item) : Item → Item
  | .value v => meaning v
  | .reference name column => .reference name column
  | .call name arguments column => .call name (expandAll meaning arguments) column
  | .unary op operand column => .unary op (expand meaning operand) column
  | .binary op left right column => .binary op (expand meaning left) (expand meaning right) column

/-- The expressions with an expression in the place of each value. -/
def expandAll (meaning : Value → Item) : List Item → List Item
  | [] => []
  | item :: items => expand meaning item :: expandAll meaning items

end

mutual

theorem expand_value (item : Item) : item.expand .value = item := by
  match item with
  | .value v => rfl
  | .reference name _ => rfl
  | .call name arguments _ => rw [expand, expandAll_value arguments]
  | .unary op operand _ => rw [expand, expand_value operand]
  | .binary op left right _ => rw [expand, expand_value left, expand_value right]

theorem expandAll_value (items : List Item) : expandAll .value items = items := by
  match items with
  | [] => rfl
  | item :: items => rw [expandAll, expand_value item, expandAll_value items]

end

end Item

namespace Item

variable {value value' both : Value → Prop} {name name' named : Text → Prop}

mutual

/-- Two properties of all values and names give a third one. -/
theorem All.combine (hvalue : ∀ v, value v → value' v → both v)
    (hname : ∀ n, name n → name' n → named n) (item : Item) (h : item.All value name)
    (h' : item.All value' name') : item.All both named := by
  match item, h, h' with
  | .value v, h, h' => exact hvalue v h h'
  | .reference n _, h, h' => exact hname n h h'
  | .call n arguments _, h, h' =>
    exact ⟨hname n h.1 h'.1, AllOf.combine hvalue hname arguments h.2 h'.2⟩
  | .unary _ operand _, h, h' => exact All.combine hvalue hname operand h h'
  | .binary _ left right _, h, h' =>
    exact ⟨All.combine hvalue hname left h.1 h'.1, All.combine hvalue hname right h.2 h'.2⟩

theorem AllOf.combine (hvalue : ∀ v, value v → value' v → both v)
    (hname : ∀ n, name n → name' n → named n) (items : List Item) (h : AllOf value name items)
    (h' : AllOf value' name' items) : AllOf both named items := by
  match items, h, h' with
  | [], h, h' => trivial
  | item :: items, h, h' =>
    exact ⟨All.combine hvalue hname item h.1 h'.1, AllOf.combine hvalue hname items h.2 h'.2⟩

end

end Item

/-! ## From tokens to derivations -/

namespace Grammar

/-- The tiers of binary operators from the given rank on. -/
def tiersFrom (rank : Nat) : List Priority :=
  [.logical, .comparison, .additive, .multiplicative].drop rank

theorem tiersFrom_priority (op : BinaryOperator) :
    tiersFrom op.priority.rank = op.priority :: tiersFrom (op.priority.rank + 1) := by
  cases op <;> rfl

/-- A chain may consist of one operand. -/
theorem Tier.single {ts : List Priority} {ls : List Lexeme} {item : Item} (h : Tier ts ls item)
    (priority : Priority) : Tier (priority :: ts) ls item := by
  have hchain : Tier (priority :: ts) (ls ++ []) item := .chain h .done
  rw [List.append_nil] at hchain
  exact hchain

/-- What a tier derives, all looser ones derive. -/
theorem Tier.loosen {n m : Nat} (hnm : n ≤ m) {ls : List Lexeme} {item : Item}
    (h : Tier (tiersFrom m) ls item) : Tier (tiersFrom n) ls item := by
  induction m with
  | zero =>
    obtain rfl : n = 0 := by omega
    exact h
  | succ m ih =>
    rcases Nat.lt_or_eq_of_le hnm with hlt | rfl
    · refine ih (by omega) ?_
      match m, h with
      | 0, h => exact h.single .logical
      | 1, h => exact h.single .comparison
      | 2, h => exact h.single .additive
      | 3, h => exact h.single .multiplicative
      | m + 4, h =>
        rw [tiersFrom, List.drop_of_length_le (by simp)] at h ⊢
        exact h
    · exact h

theorem Tail.snoc {priority : Priority} {tighter : List Priority} {first left right : Item}
    {rest ls : List Lexeme} {op : BinaryOperator} (h : Tail priority tighter first rest left)
    (hop : op.priority = priority) (hright : Tier tighter ls right) (column : Nat) :
    Tail priority tighter first (rest ++ ⟨.symbol op.symbol, column⟩ :: ls)
      (.binary op left right column) := by
  -- the chain is rebuilt around the new operator, which comes last and so takes all of it
  match h with
  | .done =>
    have hmore : Tail priority tighter first (⟨.symbol op.symbol, column⟩ :: (ls ++ []))
        (.binary op first right column) :=
      .more (mem_operators_iff.2 ⟨rfl, hop⟩) hright .done
    rw [List.append_nil] at hmore
    exact hmore
  | .more hfirst hoperand htail =>
    rw [List.cons_append, List.append_assoc]
    exact .more hfirst hoperand (htail.snoc hop hright column)

/-- A chain goes on with an operator of its tier. -/
theorem Tier.snoc {tighter : List Priority} {left right : Item} {ls rs : List Lexeme}
    {op : BinaryOperator} (hleft : Tier (op.priority :: tighter) ls left)
    (hright : Tier tighter rs right) (column : Nat) :
    Tier (op.priority :: tighter) (ls ++ ⟨.symbol op.symbol, column⟩ :: rs)
      (.binary op left right column) := by
  match hleft with
  | .chain hfirst htail =>
    rw [List.append_assoc]
    exact .chain hfirst (htail.snoc rfl hright column)

theorem Tier.toUnary {ls : List Lexeme} {item : Item} (h : Tier [] ls item) : Unary ls item := by
  match h with
  | .unary h => exact h

theorem exists_lexeme_cons {ls : List Lexeme} {token : Token} {tokens : List Token}
    (h : ls.map (·.token) = token :: tokens) :
    ∃ column rest, ls = ⟨token, column⟩ :: rest ∧ rest.map (·.token) = tokens := by
  obtain ⟨⟨_, column⟩, rest, rfl, rfl, hrest⟩ := List.map_eq_cons_iff.1 h
  exact ⟨column, rest, rfl, hrest⟩

theorem exists_lexeme {ls : List Lexeme} {token : Token} (h : ls.map (·.token) = [token]) :
    ∃ column, ls = [⟨token, column⟩] := by
  obtain ⟨column, rest, rfl, hrest⟩ := exists_lexeme_cons h
  obtain rfl := List.map_eq_nil_iff.1 hrest
  exact ⟨column, rfl⟩

/-- Lexemes with tokens in parentheses are those of the tokens and two more. -/
theorem exists_lexeme_paren {ls : List Lexeme} {tokens : List Token}
    (h : ls.map (·.token) = .symbol .openParen :: tokens ++ [.symbol .closeParen]) :
    ∃ columnOpen inner columnClose, inner.map (·.token) = tokens ∧
      ls = ⟨.symbol .openParen, columnOpen⟩ :: (inner ++ [⟨.symbol .closeParen, columnClose⟩]) := by
  obtain ⟨front, close, rfl, hfront, hclose⟩ := List.map_eq_append_iff.1 h
  obtain ⟨columnOpen, inner, rfl, hinner⟩ := exists_lexeme_cons hfront
  obtain ⟨columnClose, rfl⟩ := exists_lexeme hclose
  exact ⟨columnOpen, inner, columnClose, hinner, rfl⟩

/-- Lexemes with tokens in parentheses, or with tokens of a tight enough tier without them, make up
the expression in the tier of the given rank. -/
theorem tier_of_parenthesizeTokens {wanted : Bool} {item : Item} {tokens : List Token}
    {own rank : Nat} (hitem : ∀ ls : List Lexeme, ls.map (·.token) = tokens → ∃ found,
      Tier (tiersFrom own) ls found ∧ found.eraseColumns = item.eraseColumns)
    (hrank : rank ≤ 4) (hwanted : wanted = false → rank ≤ own) {ls : List Lexeme}
    (hls : ls.map (·.token) = Item.parenthesizeTokens wanted tokens) :
    ∃ found, Tier (tiersFrom rank) ls found ∧ found.eraseColumns = item.eraseColumns := by
  cases wanted with
  | false =>
    obtain ⟨found, hfound, herase⟩ := hitem ls hls
    exact ⟨found, hfound.loosen (hwanted rfl), herase⟩
  | true =>
    obtain ⟨columnOpen, inner, columnClose, hinner, rfl⟩ := exists_lexeme_paren hls
    obtain ⟨found, hfound, herase⟩ := hitem inner hinner
    have hparen : Tier (tiersFrom 4)
        (⟨.symbol .openParen, columnOpen⟩ :: (inner ++ [⟨.symbol .closeParen, columnClose⟩])) found :=
      .unary (.primary (.paren (hfound.loosen (Nat.zero_le _))))
    exact ⟨found, hparen.loosen hrank, herase⟩

end Grammar

/-- A value that a token denotes. -/
def Value.IsPlain : Value → Prop
  | .int n => 0 ≤ n.toInt
  | .float (.finite negative _ _) => negative = false
  | .str _ => True
  | .bool _ => True
  | _ => False

/-- A word that is read in the case it is written in. -/
def IsPlainName (name : Text) : Prop := IsWord name ∧ Text.lower name = name

namespace Grammar

theorem primary_of_tokens {v : Value} (hv : v.IsPlain) {ls : List Lexeme}
    (hls : ls.map (·.token) = v.tokens) : Primary ls (.value v) := by
  match v, hv with
  | .int n, hv =>
    rw [Value.tokens_nonneg hv] at hls
    obtain ⟨column, rfl⟩ := exists_lexeme hls
    exact .int
  | .float (.finite negative units h), hv =>
    obtain rfl : negative = false := hv
    obtain ⟨column, rfl⟩ := exists_lexeme hls
    exact .float
  | .str t, hv =>
    obtain ⟨column, rfl⟩ := exists_lexeme hls
    exact .str
  | .bool b, hv =>
    obtain ⟨column, rfl⟩ := exists_lexeme hls
    exact .bool

/-- Lexemes with the tokens of such a value make up the given expression, which holds together as
tightly as an operand of a unary operator. -/
def ReadAs (value : Value → Prop) (meaning : Value → Item) : Prop :=
  ∀ v, value v → ∀ ls : List Lexeme, ls.map (·.token) = v.tokens → ∃ found,
    Tier (tiersFrom 4) ls found ∧ found.eraseColumns = (meaning v).eraseColumns

theorem readAs_value : ReadAs Value.IsPlain .value := fun v hv _ hls =>
  ⟨.value v, .unary (.primary (primary_of_tokens hv hls)), rfl⟩

section Expand

variable {value : Value → Prop} {meaning : Value → Item}

mutual

/-- Lexemes with the tokens of an expression make up the expression that literals are read as, in
the tier of its own priority. -/
theorem tier_of_expand (hread : ReadAs value meaning) (item : Item)
    (h : item.All value IsPlainName) {ls : List Lexeme} (hls : ls.map (·.token) = item.tokens) :
    ∃ found, Tier (tiersFrom item.priority.rank) ls found ∧
      found.eraseColumns = (item.expand meaning).eraseColumns := by
  match item, h with
  | .value v, h =>
    rw [Item.tokens] at hls
    exact hread v h ls hls
  | .reference name _, h =>
    rw [Item.tokens] at hls
    obtain ⟨column, rfl⟩ := exists_lexeme hls
    refine ⟨.reference (Text.lower name) column, .unary (.primary .reference), ?_⟩
    rw [h.2]
    rfl
  | .call name arguments _, h =>
    rw [Item.tokens] at hls
    obtain ⟨column, rest, rfl, hrest⟩ := exists_lexeme_cons hls
    obtain ⟨columnOpen, inner, columnClose, hinner, rfl⟩ := exists_lexeme_paren hrest
    obtain ⟨items, hitems, herase⟩ := arguments_of_expand hread arguments h.2 hinner
    refine ⟨.call (Text.lower name) items column, .unary (.primary (.call hitems)), ?_⟩
    rw [Item.expand, Item.eraseColumns, Item.eraseColumns, herase, h.1.2]
  | .unary op operand _, h =>
    rw [Item.tokens] at hls
    obtain ⟨column, rest, rfl, hrest⟩ := exists_lexeme_cons hls
    obtain ⟨found, hfound, herase⟩ := tier_of_parenthesizeTokens
      (fun ls hls => tier_of_expand hread operand h hls) (Nat.le_refl 4)
      (fun hwanted => Nat.not_lt.1 (of_decide_eq_false hwanted)) hrest
    refine ⟨.unary op found column,
      .unary (.operator (mem_unaryOperators_iff.2 rfl) hfound.toUnary), ?_⟩
    rw [Item.expand, Item.eraseColumns, Item.eraseColumns, herase]
  | .binary op left right _, h =>
    -- the left operand is of the operator's tier and goes on its chain, the right one is of the next
    have hrank : op.priority.rank ≤ 3 := by cases op <;> decide
    rw [Item.tokens] at hls
    obtain ⟨ls, rest, rfl, hleft, hrest⟩ := List.map_eq_append_iff.1 hls
    obtain ⟨column, rs, rfl, hright⟩ := exists_lexeme_cons hrest
    obtain ⟨l, hl, heraseLeft⟩ := tier_of_parenthesizeTokens
      (fun ls hls => tier_of_expand hread left h.1 hls) (show op.priority.rank ≤ 4 by omega)
      (fun hwanted => Nat.not_lt.1 (of_decide_eq_false hwanted)) hleft
    obtain ⟨r, hr, heraseRight⟩ := tier_of_parenthesizeTokens
      (fun ls hls => tier_of_expand hread right h.2 hls) (show op.priority.rank + 1 ≤ 4 by omega)
      (fun hwanted => Nat.not_le.1 (of_decide_eq_false hwanted)) hright
    refine ⟨.binary op l r column, ?_, ?_⟩
    · rw [tiersFrom_priority] at hl
      rw [Item.priority, tiersFrom_priority]
      exact hl.snoc hr column
    · rw [Item.expand, Item.eraseColumns, Item.eraseColumns, heraseLeft, heraseRight]

theorem arguments_of_expand (hread : ReadAs value meaning) (items : List Item)
    (h : Item.AllOf value IsPlainName items) {ls : List Lexeme}
    (hls : ls.map (·.token) = Item.argumentTokens items) :
    ∃ found, Arguments ls found ∧
        Item.eraseAllColumns found = Item.eraseAllColumns (Item.expandAll meaning items) := by
  match items, h with
  | [], h =>
    obtain rfl := List.map_eq_nil_iff.1 hls
    exact ⟨[], .none, rfl⟩
  | [item], h =>
    rw [Item.argumentTokens] at hls
    obtain ⟨found, hfound, herase⟩ := tier_of_expand hread item h.1 hls
    refine ⟨[found], .some (.last (hfound.loosen (Nat.zero_le _))), ?_⟩
    show [found.eraseColumns] = [(item.expand meaning).eraseColumns]
    rw [herase]
  | item :: next :: items, h =>
    rw [Item.argumentTokens] at hls
    obtain ⟨ls, rest, rfl, hitem, hrest⟩ := List.map_eq_append_iff.1 hls
    obtain ⟨column, more, rfl, hmore⟩ := exists_lexeme_cons hrest
    obtain ⟨found, hfound, herase⟩ := tier_of_expand hread item h.1 hitem
    obtain ⟨others, hothers, heraseOthers⟩ := arguments_of_expand hread (next :: items) h.2 hmore
    have hothers₁ : Arguments₁ more others := by
      match hothers with
      | .none => nomatch heraseOthers
      | .some hothers => exact hothers
    refine ⟨found :: others, .some (.more (hfound.loosen (Nat.zero_le _)) hothers₁), ?_⟩
    rw [Item.eraseAllColumns, herase, heraseOthers]
    rfl

end

end Expand

/-- Lexemes with the tokens of an expression of plain values make up the expression, in the tier of
its priority. -/
theorem tier_of_tokens (item : Item) (h : item.All Value.IsPlain IsPlainName) {ls : List Lexeme}
    (hls : ls.map (·.token) = item.tokens) : ∃ found,
      Tier (tiersFrom item.priority.rank) ls found ∧ found.eraseColumns = item.eraseColumns := by
  obtain ⟨found, hfound, herase⟩ := tier_of_expand readAs_value item h hls
  rw [Item.expand_value] at herase
  exact ⟨found, hfound, herase⟩

end Grammar

/-! ## Parsed expressions -/

/-- The value or the name that the parser makes of a token has these properties. -/
def Token.Makes (value : Value → Prop) (name : Text → Prop) : Token → Prop
  | .int n => value (.int n)
  | .float x => value (.float x)
  | .str t => value (.str t)
  | .bool b => value (.bool b)
  | .name t => name (Text.lower t)
  | .symbol _ => True

namespace Grammar

section Makes

variable {value : Value → Prop} {name : Text → Prop}

mutual

/-- What lexemes make up has the values and the names that their tokens make. -/
theorem Tier.all {ts : List Priority} {ls : List Lexeme} {item : Item} (h : Tier ts ls item)
    (hls : ∀ lexeme ∈ ls, lexeme.token.Makes value name) : item.All value name := by
  match h with
  | .unary h => exact h.all hls
  | .chain hfirst htail =>
    rw [List.forall_mem_append] at hls
    exact htail.all (hfirst.all hls.1) hls.2

theorem Tail.all {priority : Priority} {tighter : List Priority} {left item : Item}
    {ls : List Lexeme} (h : Tail priority tighter left ls item) (hleft : left.All value name)
    (hls : ∀ lexeme ∈ ls, lexeme.token.Makes value name) : item.All value name := by
  match h with
  | .done => exact hleft
  | .more _ hright htail =>
    rw [List.forall_mem_cons, List.forall_mem_append] at hls
    exact htail.all ⟨hleft, hright.all hls.2.1⟩ hls.2.2

theorem Unary.all {ls : List Lexeme} {item : Item} (h : Unary ls item)
    (hls : ∀ lexeme ∈ ls, lexeme.token.Makes value name) : item.All value name := by
  match h with
  | .operator _ h =>
    rw [List.forall_mem_cons] at hls
    exact h.all hls.2
  | .primary h => exact h.all hls

theorem Primary.all {ls : List Lexeme} {item : Item} (h : Primary ls item)
    (hls : ∀ lexeme ∈ ls, lexeme.token.Makes value name) : item.All value name := by
  match h with
  | .int | .float | .str | .bool | .reference => exact hls _ List.mem_cons_self
  | .call h =>
    rw [List.forall_mem_cons, List.forall_mem_cons, List.forall_mem_append] at hls
    exact ⟨hls.1, h.all hls.2.2.1⟩
  | .paren h =>
    rw [List.forall_mem_cons, List.forall_mem_append] at hls
    exact h.all hls.2.1

theorem Arguments.all {ls : List Lexeme} {items : List Item} (h : Arguments ls items)
    (hls : ∀ lexeme ∈ ls, lexeme.token.Makes value name) : Item.AllOf value name items := by
  match h with
  | .none => trivial
  | .some h => exact h.all hls

theorem Arguments₁.all {ls : List Lexeme} {items : List Item} (h : Arguments₁ ls items)
    (hls : ∀ lexeme ∈ ls, lexeme.token.Makes value name) : Item.AllOf value name items := by
  match h with
  | .last h => exact ⟨h.all hls, trivial⟩
  | .more h hmore =>
    rw [List.forall_mem_append, List.forall_mem_cons] at hls
    exact ⟨h.all hls.1, hmore.all hls.2.2⟩

end

end Makes

end Grammar

/-- The values and the names of a parsed expression are those that the tokens of its text make. -/
theorem all_of_parse {value : Value → Prop} {name : Text → Prop} {source : Text} {e : Expression}
    (h : parse source = .ok e)
    (hmakes : ∀ ls, tokenize source = .ok ls → ∀ lexeme ∈ ls, lexeme.token.Makes value name) :
    e.root.All value name := by
  obtain ⟨ls, hscan, hderives, -⟩ := parse_eq_ok_iff.1 h
  exact hderives.all (hmakes ls hscan)

/-- A value that the parser makes of a token. -/
def Value.IsParsed : Value → Prop
  | .int n => 0 ≤ n.toInt
  | .float x => x = .infinite false ∨ ∃ units h, x = .finite false units h
  | .str _ => True
  | .bool _ => True
  | .unresolved => False

/-- A name as the parser reads it. -/
def IsParsedName (name : Text) : Prop := ∃ t, isName t = true ∧ name = Text.lower t

theorem Token.makes_of_isScanned {token : Token} (h : token.IsScanned) :
    token.Makes Value.IsParsed IsParsedName := by
  match token with
  | .int n => exact h
  | .float x => exact h
  | .str t => trivial
  | .bool b => trivial
  | .name t => exact ⟨t, h, rfl⟩
  | .symbol s => trivial

/-! ## Names in lower case -/

theorem lt_of_isNamePart {c : Char} (h : isNamePart c = true) : c.toNat < 128 := by
  simp only [isNamePart, Char.isAlphanum, Bool.or_eq_true, isAlpha_iff, isDigit_iff,
    decide_eq_true_eq] at h
  rcases h with ((h | rfl) | rfl) | rfl
  · omega
  · decide
  · decide
  · decide

/-- Lower case keeps the characters of names among them, and is kept by lower case. -/
theorem toLower_nameChar {c : Char} (h : c.toNat < 128) :
    (isNameStart c = true → isNameStart c.toLower = true) ∧
      (isNamePart c = true → isNamePart c.toLower = true) ∧ c.toLower.toLower = c.toLower := by
  -- the characters of names are few enough to go through
  have hall : ∀ n < 128, (isNameStart (Char.ofNat n) = true →
        isNameStart (Char.ofNat n).toLower = true) ∧
      (isNamePart (Char.ofNat n) = true → isNamePart (Char.ofNat n).toLower = true) ∧
      (Char.ofNat n).toLower.toLower = (Char.ofNat n).toLower := by decide +kernel
  have hc := hall c.toNat h
  rw [Char.ofNat_toNat] at hc
  exact hc

theorem isNamePart_of_mem {t : Text} (h : isName t = true) {c : Char} (hc : c ∈ t) :
    isNamePart c = true := by
  match t with
  | [] => nomatch hc
  | d :: t =>
    rw [isName, Bool.and_eq_true, List.all_eq_true] at h
    rcases List.mem_cons.1 hc with rfl | hc
    · exact isNamePart_of_isNameStart h.1
    · exact h.2 c hc

/-- A name in lower case is a name, and lower case does not change it again. -/
theorem lower_of_isName {t : Text} (h : isName t = true) :
    isName (Text.lower t) = true ∧ Text.lower (Text.lower t) = Text.lower t := by
  have hascii : ∀ c ∈ t, c.toNat < 128 := fun c hc => lt_of_isNamePart (isNamePart_of_mem h hc)
  have hlower := Text.lower_eq_map_toLower t hascii
  have hname : isName (t.map Char.toLower) = true := by
    match t with
    | [] => nomatch h
    | c :: t =>
      rw [isName, Bool.and_eq_true, List.all_eq_true] at h
      rw [List.map_cons, isName, Bool.and_eq_true, List.all_eq_true]
      refine ⟨(toLower_nameChar (hascii c List.mem_cons_self)).1 h.1, fun d hd => ?_⟩
      obtain ⟨c', hc', rfl⟩ := List.mem_map.1 hd
      exact (toLower_nameChar (hascii c' (List.mem_cons_of_mem c hc'))).2.1 (h.2 c' hc')
  have hascii' : ∀ c ∈ t.map Char.toLower, c.toNat < 128 := fun c hc =>
    lt_of_isNamePart (isNamePart_of_mem hname hc)
  rw [hlower]
  refine ⟨hname, ?_⟩
  rw [Text.lower_eq_map_toLower _ hascii', List.map_map]
  exact List.map_congr_left fun c hc => (toLower_nameChar (hascii c hc)).2.2

/-! ## The round trip -/

/-- No name of the expression reads as a boolean, and no literal of it is infinite. -/
def Item.Rereadable : Item → Prop :=
  Item.All (fun v => ∀ negative, v ≠ .float (.infinite negative))
    fun name => name ≠ "true".toList ∧ name ≠ "false".toList

instance : DecidablePred Item.Rereadable := inferInstanceAs (DecidablePred (Item.All _ _))

/-- A parsed expression without such names and literals is made of plain ones. -/
theorem plain_of_parsed {item : Item} (h : item.All Value.IsParsed IsParsedName)
    (hitem : item.Rereadable) : item.All Value.IsPlain IsPlainName := by
  refine Item.All.combine ?_ ?_ item h hitem
  · intro v hv hfinite
    match v, hv with
    | .int n, hv => exact hv
    | .float x, hv =>
      rcases hv with rfl | ⟨units, hunits, rfl⟩
      · exact absurd rfl (hfinite false)
      · rfl
    | .str t, hv => trivial
    | .bool b, hv => trivial
  · rintro name ⟨t, ht, rfl⟩ hword
    obtain ⟨hname, hlower⟩ := lower_of_isName ht
    exact ⟨⟨hname, hword⟩, hlower⟩

theorem printable_of_plain {item : Item} (h : item.All Value.IsPlain IsPlainName) :
    item.Printable := by
  refine Item.All.combine ?_ ?_ item h h
  · rintro v hv - rfl
    exact hv
  · exact fun name hname _ => hname.1

/-- A text whose lexemes make up an expression parses to it. -/
theorem parse_of_derives {source : Text} {ls : List Lexeme} {item : Item}
    (hscan : tokenize source = .ok ls) (h : Derives ls item) :
    parse source = .ok ⟨item, source⟩ :=
  parse_eq_ok_iff.2 ⟨ls, hscan, h, rfl⟩

/-- The text of an expression of plain values and names parses to the expression, up to columns. -/
theorem parse_plain {item : Item} (h : item.All Value.IsPlain IsPlainName) :
    ∃ e, parse item.text = .ok e ∧ e.root.eraseColumns = item.eraseColumns := by
  obtain ⟨ls, hscan, hls⟩ := Item.tokenize_text (printable_of_plain h)
  obtain ⟨found, hfound, herase⟩ := Grammar.tier_of_tokens item h hls
  have hderives : Derives ls found := hfound.loosen (Nat.zero_le _)
  exact ⟨⟨found, item.text⟩, parse_of_derives hscan hderives, herase⟩

/-- The values and names of a parsed expression are those of the scanned tokens. -/
theorem parsed_of_parse {source : Text} {e : Expression} (h : parse source = .ok e) :
    e.root.All Value.IsParsed IsParsedName :=
  all_of_parse h fun _ hscan lexeme hmem =>
    Token.makes_of_isScanned (scan_isScanned source hscan lexeme hmem)

/-- **Printing undoes parsing.** The text of a parsed expression parses, and gives the same
expression up to columns, so that it is printed as the same text again. -/
theorem parse_text (source : Text) (e : Expression) (h : parse source = .ok e)
    (hroot : e.root.Rereadable) :
    ∃ e', parse e.text = .ok e' ∧ e'.root.eraseColumns = e.root.eraseColumns ∧
      e'.text = e.text := by
  obtain ⟨e', hparse, herase⟩ := parse_plain (plain_of_parsed (parsed_of_parse h) hroot)
  refine ⟨e', hparse, herase, ?_⟩
  calc e'.root.text = e'.root.eraseColumns.text := (Item.text_eraseColumns e'.root).symm
    _ = e.root.eraseColumns.text := by rw [herase]
    _ = e.root.text := Item.text_eraseColumns e.root

/-- Parentheses, names, an escape and numerals that are printed otherwise than they were written. -/
theorem parse_text_mixed : ∃ e e',
    parse "- (A+2)*(B-(c-0x10)) == F(\"\\u0041\", 15e-1)&&!d.E".toList = .ok e ∧
      e.text = "-(a + 2) * (b - (c - 16)) == f(\"A\", 1.5) && !d.e".toList ∧
      parse e.text = .ok e' ∧ e'.root.eraseColumns = e.root.eraseColumns := by
  generalize hsource : "- (A+2)*(B-(c-0x10)) == F(\"\\u0041\", 15e-1)&&!d.E".toList = source
  have hcheck : (parse source).toOption.any (fun e => e.root.Rereadable ∧
      e.text = "-(a + 2) * (b - (c - 16)) == f(\"A\", 1.5) && !d.e".toList) = true := by
    rw [← hsource]
    decide +kernel
  cases h : parse source with
  | error e =>
    rw [h] at hcheck
    nomatch hcheck
  | ok e =>
    rw [h] at hcheck
    obtain ⟨hroot, htext⟩ := of_decide_eq_true hcheck
    obtain ⟨e', hparse, herase, -⟩ := parse_text source e h hroot
    exact ⟨e, e', rfl, htext, hparse, herase⟩

end SourcePreprocessor
