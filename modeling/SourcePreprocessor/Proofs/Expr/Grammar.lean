import SourcePreprocessor.Expr.Parser
import SourcePreprocessor.Proofs.Except

/-!
# The grammar of expressions

The grammar says which lexemes make up which expression, without a reader: one relation for each
nonterminal, and in each rule the expression that the lexemes make up beside the lexemes.

> logical        := comparison (("&&" | "||" | "^") comparison)*
> comparison     := additive (("==" | "!=" | "<" | ">" | "<=" | ">=") additive)*
> additive       := multiplicative (("+" | "-") multiplicative)*
> multiplicative := unary (("*" | "/" | "%") unary)*
> unary          := ("!" | "-") unary | primary
> primary        := literal | name | name "(" [logical ("," logical)*] ")" | "(" logical ")"

The four tiers of binary operators have one rule between them. `Tier` takes the list of tiers that
are still to be read, from the loosest one on, and the operands of a tier are what the rest of the
list derives. The chain of a tier grows to the left: `Tail` carries the expression that the operands
so far make up, and each operator takes all of it as its left operand. Which operators a tier has,
and how they are written, stands in the lists `Grammar.operators` and `Grammar.unaryOperators`; the
priorities and the symbols that the reader and the printer go by are compared with them
(`mem_operators_iff`, `mem_unaryOperators_iff`).

The reader of expressions is compared with these rules in both directions. It is *sound*: what it
reads, the grammar derives from the lexemes it took (`SoundAt`, by induction on the bound of its
calls). It is *complete*: on lexemes that the grammar derives it takes exactly these and builds the
derived expression, provided that what follows them cannot continue the expression (`Stops`) and
that the bound is large enough. Together:

> `parseLexemes_iff_derives`: the reader gives an expression exactly when the grammar derives it from
> the lexemes, no lexemes derive two expressions, and all others are rejected.
-/

namespace SourcePreprocessor

namespace Grammar

/-- The operators between the operands of a tier, each behind the symbol that is written for it. -/
def operators : Priority → List (Symbol × BinaryOperator)
  | .logical => [(.andAnd, .and), (.orOr, .or), (.caret, .xor)]
  | .comparison => [(.equalEqual, .equal), (.bangEqual, .notEqual), (.less, .less),
      (.greater, .greater), (.lessEqual, .lessEqual), (.greaterEqual, .greaterEqual)]
  | .additive => [(.plus, .add), (.minus, .sub)]
  | .multiplicative => [(.star, .mul), (.slash, .div), (.percent, .mod)]
  | .unary | .value => []

/-- The operators before an operand, each behind the symbol that is written for it. -/
def unaryOperators : List (Symbol × UnaryOperator) := [(.bang, .not), (.minus, .negate)]

mutual

/-- The lexemes make up a chain of the first of the given tiers. -/
inductive Tier : List Priority → List Lexeme → Item → Prop where
  | unary {ls item} : Unary ls item → Tier [] ls item
  | chain {priority tighter ls rest first item} :
      Tier tighter ls first → Tail priority tighter first rest item →
      Tier (priority :: tighter) (ls ++ rest) item

/-- The lexemes go on with a chain whose operands so far make up the first item, to the second. -/
inductive Tail : Priority → List Priority → Item → List Lexeme → Item → Prop where
  | done {priority tighter left} : Tail priority tighter left [] left
  | more {priority tighter left symbol op column ls right rest item} :
      (symbol, op) ∈ operators priority → Tier tighter ls right →
      Tail priority tighter (.binary op left right column) rest item →
      Tail priority tighter left (⟨.symbol symbol, column⟩ :: (ls ++ rest)) item

/-- The lexemes make up unary operators and their operand. -/
inductive Unary : List Lexeme → Item → Prop where
  | operator {symbol op column ls operand} : (symbol, op) ∈ unaryOperators →
      Unary ls operand → Unary (⟨.symbol symbol, column⟩ :: ls) (.unary op operand column)
  | primary {ls item} : Primary ls item → Unary ls item

/-- The lexemes make up a literal, a reference, a call or an expression in parentheses. -/
inductive Primary : List Lexeme → Item → Prop where
  | int {n column} : Primary [⟨.int n, column⟩] (.value (.int n))
  | float {x column} : Primary [⟨.float x, column⟩] (.value (.float x))
  | str {t column} : Primary [⟨.str t, column⟩] (.value (.str t))
  | bool {b column} : Primary [⟨.bool b, column⟩] (.value (.bool b))
  | reference {name column} :
      Primary [⟨.name name, column⟩] (.reference (Text.lower name) column)
  | call {name column columnOpen ls items columnClose} : Arguments ls items →
      Primary (⟨.name name, column⟩ :: ⟨.symbol .openParen, columnOpen⟩ ::
          (ls ++ [⟨.symbol .closeParen, columnClose⟩]))
        (.call (Text.lower name) items column)
  | paren {columnOpen ls item columnClose} :
      Tier [.logical, .comparison, .additive, .multiplicative] ls item →
      Primary (⟨.symbol .openParen, columnOpen⟩ :: (ls ++ [⟨.symbol .closeParen, columnClose⟩])) item

/-- The lexemes make up the arguments of a call. -/
inductive Arguments : List Lexeme → List Item → Prop where
  | none : Arguments [] []
  | some {ls items} : Arguments₁ ls items → Arguments ls items

/-- The lexemes make up one argument or more, with commas between them. -/
inductive Arguments₁ : List Lexeme → List Item → Prop where
  | last {ls item} : Tier [.logical, .comparison, .additive, .multiplicative] ls item →
      Arguments₁ ls [item]
  | more {ls item column rest items} :
      Tier [.logical, .comparison, .additive, .multiplicative] ls item → Arguments₁ rest items →
      Arguments₁ (ls ++ ⟨.symbol .comma, column⟩ :: rest) (item :: items)

end

/-- A tier has exactly the operators of its priority, each written with its own symbol. -/
theorem mem_operators_iff {tier : Priority} {s : Symbol} {op : BinaryOperator} :
    (s, op) ∈ operators tier ↔ op.symbol = s ∧ op.priority = tier := by
  constructor
  · have hall : ∀ p ∈ operators tier, p.2.symbol = p.1 ∧ p.2.priority = tier := by
      cases tier <;> decide
    exact hall (s, op)
  · rintro ⟨rfl, rfl⟩
    cases op <;> decide

/-- Every operator with one operand stands before it, written with its own symbol. -/
theorem mem_unaryOperators_iff {s : Symbol} {op : UnaryOperator} :
    (s, op) ∈ unaryOperators ↔ op.symbol = s := by
  constructor
  · have hall : ∀ p ∈ unaryOperators, p.2.symbol = p.1 := by decide
    exact hall (s, op)
  · rintro rfl
    cases op <;> decide

end Grammar

/-- The lexemes make up the expression. -/
def Derives (lexemes : List Lexeme) (item : Item) : Prop :=
  Grammar.Tier [.logical, .comparison, .additive, .multiplicative] lexemes item

/-- The lexemes make up the expression, or there are none of both. -/
def DerivesOption (lexemes : List Lexeme) : Option Item → Prop
  | none => lexemes = []
  | some item => Derives lexemes item

namespace Parser

open Grammar

/-! ## What the reader looks at -/

/-- The lexemes start with this delimiter, and these lexemes follow it. -/
theorem delimiter?_eq_some {endColumn : Nat} {lexemes rest : List Lexeme} {d : Delimiter}
    (h : delimiter? endColumn lexemes = some (d, rest)) :
    (d = ⟨.endOfInput, endColumn⟩ ∧ lexemes = [] ∧ rest = []) ∨
      (d.ending = .comma ∧ lexemes = ⟨.symbol .comma, d.column⟩ :: rest) ∨
      (d.ending = .closeParen ∧ lexemes = ⟨.symbol .closeParen, d.column⟩ :: rest) := by
  unfold delimiter? at h
  split at h
  · obtain ⟨rfl, rfl⟩ := h
    exact .inl ⟨rfl, rfl, rfl⟩
  · obtain ⟨rfl, rfl⟩ := h
    exact .inr (.inl ⟨rfl, rfl⟩)
  · obtain ⟨rfl, rfl⟩ := h
    exact .inr (.inr ⟨rfl, rfl⟩)
  · nomatch h

/-- The lexemes start with this operator of the tier, and these lexemes follow it. -/
theorem operator?_eq_some {tier : Priority} {lexemes rest : List Lexeme} {op : BinaryOperator}
    {column : Nat} (h : operator? tier lexemes = some (op, column, rest)) :
    op.priority = tier ∧ lexemes = ⟨.symbol op.symbol, column⟩ :: rest := by
  unfold operator? at h
  split at h
  · next s c r =>
    split at h
    · next found hs =>
      split at h
      · next hp =>
        obtain ⟨rfl, rfl, rfl⟩ := h
        exact ⟨hp, by rw [Symbol.binary?_eq_some_iff.1 hs]⟩
      · nomatch h
    · nomatch h
  · nomatch h

theorem operator?_symbol (tier : Priority) (op : BinaryOperator) (column : Nat)
    (rest : List Lexeme) :
    operator? tier (⟨.symbol op.symbol, column⟩ :: rest) =
      if op.priority = tier then some (op, column, rest) else none := by
  unfold operator?
  dsimp only
  rw [Symbol.binary?_eq_some_iff.2 rfl]

/-- A name that no parenthesis follows is a reference. -/
theorem primary_reference {endColumn bound : Nat} {name : Text} {column : Nat} {rest : List Lexeme}
    (h : ∀ columnOpen inner, rest ≠ ⟨.symbol .openParen, columnOpen⟩ :: inner) :
    primary endColumn (bound + 1) (⟨.name name, column⟩ :: rest) =
      .ok (.reference (Text.lower name) column, rest) := by
  rw [primary]
  exact h

/-! ## Soundness -/

/-- Up to this bound of its calls, the reader reads what the grammar derives from the lexemes it
takes. -/
structure SoundAt (endColumn bound : Nat) : Prop where
  expression : ∀ {lexemes rest item? d},
    expression endColumn bound lexemes = .ok ((item?, d), rest) →
    ∃ ls left, lexemes = ls ++ left ∧ delimiter? endColumn left = some (d, rest) ∧
      DerivesOption ls item?
  tier : ∀ {ts lexemes rest item}, tier endColumn bound ts lexemes = .ok (item, rest) →
    ∃ ls, lexemes = ls ++ rest ∧ Tier ts ls item
  chain : ∀ {priority tighter left lexemes rest item},
    chain endColumn bound priority tighter left lexemes = .ok (item, rest) →
    ∃ ls, lexemes = ls ++ rest ∧ Tail priority tighter left ls item
  unary : ∀ {lexemes rest item}, unary endColumn bound lexemes = .ok (item, rest) →
    ∃ ls, lexemes = ls ++ rest ∧ Unary ls item
  primary : ∀ {lexemes rest item}, primary endColumn bound lexemes = .ok (item, rest) →
    ∃ ls, lexemes = ls ++ rest ∧ Primary ls item
  arguments : ∀ {callColumn first lexemes rest items},
    arguments endColumn bound callColumn first lexemes = .ok (items, rest) →
    ∃ ls column, lexemes = ls ++ ⟨.symbol .closeParen, column⟩ :: rest ∧
      (Arguments₁ ls items ∨ first = true ∧ ls = [] ∧ items = [])

section Soundness

variable {endColumn bound : Nat} (ih : SoundAt endColumn bound)

include ih

theorem expression_sound {lexemes rest : List Lexeme} {item? : Option Item} {d : Delimiter}
    (h : Parser.expression endColumn (bound + 1) lexemes = .ok ((item?, d), rest)) :
    ∃ ls left, lexemes = ls ++ left ∧ delimiter? endColumn left = some (d, rest) ∧
      DerivesOption ls item? := by
  rw [Parser.expression] at h
  split at h
  · next hd =>
    obtain ⟨⟨rfl, rfl⟩, rfl⟩ := h
    exact ⟨[], lexemes, rfl, hd, rfl⟩
  · next hd =>
    obtain ⟨⟨item, left⟩, ht, hend⟩ := bind_eq_ok_iff.1 h
    obtain ⟨ls, rfl, hls⟩ := ih.tier ht
    dsimp only at hend
    split at hend
    · next hd' =>
      obtain ⟨⟨rfl, rfl⟩, rfl⟩ := hend
      exact ⟨ls, left, rfl, hd', hls⟩
    · nomatch hend

theorem tier_sound {ts : List Priority} {lexemes rest : List Lexeme} {item : Item}
    (h : Parser.tier endColumn (bound + 1) ts lexemes = .ok (item, rest)) :
    ∃ ls, lexemes = ls ++ rest ∧ Tier ts ls item := by
  cases ts with
  | nil =>
    rw [Parser.tier] at h
    obtain ⟨ls, hls, hu⟩ := ih.unary h
    exact ⟨ls, hls, .unary hu⟩
  | cons priority tighter =>
    rw [Parser.tier] at h
    obtain ⟨⟨left, middle⟩, ht, hchain⟩ := bind_eq_ok_iff.1 h
    obtain ⟨ls, rfl, hfirst⟩ := ih.tier ht
    obtain ⟨more, rfl, htail⟩ := ih.chain hchain
    exact ⟨ls ++ more, by rw [List.append_assoc], .chain hfirst htail⟩

theorem chain_sound {priority : Priority} {tighter : List Priority} {left : Item}
    {lexemes rest : List Lexeme} {item : Item}
    (h : Parser.chain endColumn (bound + 1) priority tighter left lexemes = .ok (item, rest)) :
    ∃ ls, lexemes = ls ++ rest ∧ Tail priority tighter left ls item := by
  rw [Parser.chain] at h
  split at h
  · obtain ⟨rfl, rfl⟩ := h
    exact ⟨[], rfl, .done⟩
  · next op column after hop =>
    obtain ⟨hpriority, rfl⟩ := operator?_eq_some hop
    obtain ⟨⟨right, middle⟩, ht, hchain⟩ := bind_eq_ok_iff.1 h
    obtain ⟨ls, rfl, hright⟩ := ih.tier ht
    obtain ⟨more, rfl, htail⟩ := ih.chain hchain
    refine ⟨⟨.symbol op.symbol, column⟩ :: (ls ++ more), ?_,
      .more (mem_operators_iff.2 ⟨rfl, hpriority⟩) hright htail⟩
    rw [List.cons_append, List.append_assoc]

theorem unary_sound {lexemes rest : List Lexeme} {item : Item}
    (h : Parser.unary endColumn (bound + 1) lexemes = .ok (item, rest)) :
    ∃ ls, lexemes = ls ++ rest ∧ Unary ls item := by
  have hprimary : ∀ {l}, Parser.primary endColumn bound l = .ok (item, rest) →
      ∃ ls, l = ls ++ rest ∧ Unary ls item := fun h =>
    (ih.primary h).imp fun ls ⟨hls, hp⟩ => ⟨hls, .primary hp⟩
  match lexemes, h with
  | [], h => exact hprimary h
  | ⟨token, column⟩ :: after, h =>
    cases token with
    | symbol s =>
      rw [Parser.unary] at h
      split at h
      · next op hop =>
        obtain rfl := Symbol.unary?_eq_some_iff.1 hop
        obtain ⟨⟨operand, left⟩, hu, hitem⟩ := bind_eq_ok_iff.1 h
        obtain ⟨ls, rfl, hoperand⟩ := ih.unary hu
        obtain ⟨rfl, rfl⟩ := hitem
        exact ⟨_ :: ls, rfl, .operator (mem_unaryOperators_iff.2 rfl) hoperand⟩
      · exact hprimary h
    | _ => exact hprimary h

theorem primary_sound {lexemes rest : List Lexeme} {item : Item}
    (h : Parser.primary endColumn (bound + 1) lexemes = .ok (item, rest)) :
    ∃ ls, lexemes = ls ++ rest ∧ Primary ls item := by
  match lexemes, h with
  | [], h => nomatch h
  | ⟨.int n, column⟩ :: after, h =>
    obtain ⟨rfl, rfl⟩ := h
    exact ⟨[_], rfl, .int⟩
  | ⟨.float x, column⟩ :: after, h =>
    obtain ⟨rfl, rfl⟩ := h
    exact ⟨[_], rfl, .float⟩
  | ⟨.str t, column⟩ :: after, h =>
    obtain ⟨rfl, rfl⟩ := h
    exact ⟨[_], rfl, .str⟩
  | ⟨.bool b, column⟩ :: after, h =>
    obtain ⟨rfl, rfl⟩ := h
    exact ⟨[_], rfl, .bool⟩
  | ⟨.name name, column⟩ :: after, h =>
    -- a parenthesis right after a name makes it a call, and nothing else does
    by_cases hopen : ∃ columnOpen inner, after = ⟨.symbol .openParen, columnOpen⟩ :: inner
    · obtain ⟨columnOpen, inner, rfl⟩ := hopen
      rw [Parser.primary] at h
      obtain ⟨⟨items, left⟩, harguments, hitem⟩ := bind_eq_ok_iff.1 h
      obtain ⟨ls, columnClose, rfl, hls⟩ := ih.arguments harguments
      obtain ⟨rfl, rfl⟩ := hitem
      refine ⟨_ :: ⟨.symbol .openParen, columnOpen⟩ :: (ls ++ [⟨.symbol .closeParen, columnClose⟩]),
        ?_, .call ?_⟩
      · rw [List.cons_append, List.cons_append, List.append_assoc]
        rfl
      · rcases hls with hls | ⟨-, rfl, rfl⟩
        · exact .some hls
        · exact .none
    · rw [primary_reference fun columnOpen inner e => hopen ⟨columnOpen, inner, e⟩] at h
      obtain ⟨rfl, rfl⟩ := h
      exact ⟨[_], rfl, .reference⟩
  | ⟨.symbol s, column⟩ :: after, h =>
    cases s with
    | openParen =>
      rw [Parser.primary] at h
      obtain ⟨⟨⟨item?, d⟩, left⟩, hexpression, hitem⟩ := bind_eq_ok_iff.1 h
      obtain ⟨ls, left, rfl, hd, hls⟩ := ih.expression hexpression
      dsimp only at hitem
      split at hitem
      · next item hending =>
        obtain ⟨rfl, rfl⟩ := hitem
        rcases delimiter?_eq_some hd with ⟨rfl, -⟩ | ⟨hd', -⟩ | ⟨-, rfl⟩
        · nomatch hending
        · rw [hd'] at hending
          nomatch hending
        · refine ⟨⟨.symbol .openParen, column⟩ :: (ls ++ [⟨.symbol .closeParen, d.column⟩]), ?_,
            .paren hls⟩
          rw [List.cons_append, List.append_assoc]
          rfl
      all_goals nomatch hitem
    | _ => nomatch h

theorem arguments_sound {callColumn : Nat} {first : Bool} {lexemes rest : List Lexeme}
    {items : List Item}
    (h : Parser.arguments endColumn (bound + 1) callColumn first lexemes = .ok (items, rest)) :
    ∃ ls column, lexemes = ls ++ ⟨.symbol .closeParen, column⟩ :: rest ∧
      (Arguments₁ ls items ∨ first = true ∧ ls = [] ∧ items = []) := by
  rw [Parser.arguments] at h
  obtain ⟨⟨⟨item?, d⟩, after⟩, hexpression, hitems⟩ := bind_eq_ok_iff.1 h
  obtain ⟨ls, left, rfl, hd, hls⟩ := ih.expression hexpression
  obtain ⟨ending, column⟩ := d
  rcases delimiter?_eq_some hd with ⟨⟨⟩, -, -⟩ | ⟨rfl, rfl⟩ | ⟨rfl, rfl⟩
  · nomatch hitems
  -- after a comma there has to be an argument again, so the call is not without arguments there
  · cases item? with
    | none => nomatch hitems
    | some item =>
      obtain ⟨⟨others, last⟩, hothers, hcons⟩ := bind_eq_ok_iff.1 hitems
      obtain ⟨more, columnClose, rfl, hmore | ⟨⟨⟩, -⟩⟩ := ih.arguments hothers
      obtain ⟨rfl, rfl⟩ := hcons
      refine ⟨ls ++ ⟨.symbol .comma, column⟩ :: more, columnClose, ?_, .inl (.more hls hmore)⟩
      rw [List.append_assoc]
      rfl
  -- the parenthesis ends the call, with no argument before it only at its start
  · cases item? with
    | none =>
      obtain rfl : ls = [] := hls
      cases first with
      | false => nomatch hitems
      | true =>
        obtain ⟨rfl, rfl⟩ := hitems
        exact ⟨[], column, rfl, .inr ⟨rfl, rfl, rfl⟩⟩
    | some item =>
      obtain ⟨rfl, rfl⟩ := hitems
      exact ⟨ls, column, rfl, .inl (.last hls)⟩

end Soundness

/-- The reader reads only what the grammar derives. -/
theorem soundAt (endColumn bound : Nat) : SoundAt endColumn bound := by
  induction bound with
  | zero => exact ⟨nofun, nofun, nofun, nofun, nofun, nofun⟩
  | succ bound ih =>
    exact ⟨expression_sound ih, tier_sound ih, chain_sound ih, unary_sound ih, primary_sound ih,
      arguments_sound ih⟩

/-! ## Completeness -/

/-- What follows an expression of these tiers does not go on with it: it is no operator of theirs,
and no parenthesis that would open a call. -/
structure Stops (ts : List Priority) (rest : List Lexeme) : Prop where
  operator : ∀ priority ∈ ts, operator? priority rest = none
  paren : ∀ column inner, rest ≠ ⟨.symbol .openParen, column⟩ :: inner

theorem Stops.tighter {priority : Priority} {ts : List Priority} {rest : List Lexeme}
    (h : Stops (priority :: ts) rest) : Stops ts rest :=
  ⟨fun p hp => h.operator p (List.mem_cons_of_mem _ hp), h.paren⟩

theorem stops_operator {op : BinaryOperator} {ts : List Priority} (h : op.priority ∉ ts)
    (column : Nat) (rest : List Lexeme) : Stops ts (⟨.symbol op.symbol, column⟩ :: rest) := by
  refine ⟨fun p hp => ?_, ?_⟩
  · rw [operator?_symbol, if_neg]
    rintro rfl
    exact h hp
  · rintro _ _ e
    cases op <;> nomatch e

theorem stops_delimiter {endColumn : Nat} {lexemes rest : List Lexeme} {d : Delimiter}
    (h : delimiter? endColumn lexemes = some (d, rest)) (ts : List Priority) : Stops ts lexemes := by
  rcases delimiter?_eq_some h with ⟨-, rfl, -⟩ | ⟨-, rfl⟩ | ⟨-, rfl⟩
  · exact ⟨fun _ _ => rfl, nofun⟩
  · exact ⟨fun _ _ => rfl, nofun⟩
  · exact ⟨fun _ _ => rfl, nofun⟩

theorem primary_starts {ls : List Lexeme} {item : Item} (h : Primary ls item)
    (endColumn : Nat) (rest : List Lexeme) :
    ls ≠ [] ∧ delimiter? endColumn (ls ++ rest) = none := by
  cases h <;> exact ⟨nofun, rfl⟩

theorem unary_starts {ls : List Lexeme} {item : Item} (h : Unary ls item)
    (endColumn : Nat) (rest : List Lexeme) :
    ls ≠ [] ∧ delimiter? endColumn (ls ++ rest) = none := by
  cases h with
  | @operator _ op _ _ _ hop =>
    obtain rfl := mem_unaryOperators_iff.1 hop
    cases op <;> exact ⟨nofun, rfl⟩
  | primary h => exact primary_starts h endColumn rest

/-- An expression has a lexeme and starts with no delimiter. -/
theorem tier_starts {ts : List Priority} {ls : List Lexeme} {item : Item}
    (h : Tier ts ls item) (endColumn : Nat) (rest : List Lexeme) :
    ls ≠ [] ∧ delimiter? endColumn (ls ++ rest) = none := by
  match h with
  | .unary h => exact unary_starts h endColumn rest
  | @Tier.chain _ _ _ more _ _ h _ =>
    obtain ⟨hne, hd⟩ := tier_starts h endColumn (more ++ rest)
    refine ⟨fun e => hne (List.append_eq_nil_iff.1 e).1, ?_⟩
    rw [List.append_assoc]
    exact hd

/-- An expression is read up to the delimiter after it, if its tier is read up to what stops it. -/
theorem expression_of_tier {endColumn bound : Nat} {ls left rest : List Lexeme} {item : Item}
    {d : Delimiter} (hls : Tier tiers ls item) (hd : delimiter? endColumn left = some (d, rest))
    (hbound : 10 * ls.length ≤ bound + 2)
    (htier : ∀ {rest bound}, Stops tiers rest → 10 * ls.length + tiers.length ≤ bound + 7 →
      tier endColumn bound tiers (ls ++ rest) = .ok (item, rest)) :
    expression endColumn bound (ls ++ left) = .ok ((some item, d), rest) := by
  obtain ⟨hne, hstart⟩ := tier_starts hls endColumn left
  have hpos := List.length_pos_iff.2 hne
  obtain ⟨bound, rfl⟩ : ∃ b, bound = b + 1 := ⟨bound - 1, by omega⟩
  have hitem : tier endColumn bound tiers (ls ++ left) = .ok (item, left) :=
    htier (stops_delimiter hd tiers) (show 10 * ls.length + 4 ≤ bound + 7 by omega)
  rw [expression, hstart]
  refine bind_eq_ok_iff.2 ⟨(item, left), hitem, ?_⟩
  dsimp only
  rw [hd]

/-- After an operand of a chain there is an operator of its tier or the end of the chain, and the
tiers of its operands stop at both. -/
theorem stops_tail {priority : Priority} {tighter : List Priority} {left item : Item}
    {ls rest : List Lexeme} (h : Tail priority tighter left ls item)
    (hts : priority :: tighter <:+ tiers) (hstops : Stops (priority :: tighter) rest) :
    Stops tighter (ls ++ rest) := by
  cases h with
  | done => exact hstops.tighter
  | more hop hright htail =>
    obtain ⟨rfl, hpriority⟩ := mem_operators_iff.1 hop
    -- no tier occurs twice, so the operator of the chain belongs to none of the tighter ones
    have hnodup : (priority :: tighter).Nodup := hts.sublist.nodup (by decide)
    refine stops_operator ?_ _ _
    rw [hpriority]
    exact (List.nodup_cons.1 hnodup).1

theorem unary_of_primary {ls : List Lexeme} {item : Item} (h : Primary ls item)
    (endColumn bound : Nat) (rest : List Lexeme) :
    unary endColumn (bound + 1) (ls ++ rest) = primary endColumn bound (ls ++ rest) := by
  cases h <;> rfl

-- The induction is on the derivation, and the bound of calls is ten for a lexeme. From one function
-- to the next no lexeme is taken, but the bound goes down by one: the constants make room for this
-- on the way from an expression to its first primary.
mutual

theorem tier_complete {endColumn : Nat} {ts : List Priority} {ls : List Lexeme} {item : Item}
    (h : Tier ts ls item) (hts : ts <:+ tiers) {rest : List Lexeme} (hstops : Stops ts rest)
    {bound : Nat} (hbound : 10 * ls.length + ts.length ≤ bound + 7) :
    tier endColumn bound ts (ls ++ rest) = .ok (item, rest) := by
  obtain ⟨hne, -⟩ := tier_starts h endColumn rest
  have hpos := List.length_pos_iff.2 hne
  obtain _ | bound := bound
  · omega
  match h with
  | .unary h =>
    rw [tier]
    exact unary_complete h hstops (by simp at hbound; omega)
  | @Tier.chain priority tighter ls more first _ h htail =>
    have hpos := List.length_pos_iff.2 (tier_starts h endColumn rest).1
    rw [List.length_append, List.length_cons] at hbound
    have hfirst : tier endColumn bound tighter (ls ++ (more ++ rest)) = .ok (first, more ++ rest) :=
      tier_complete h ((List.suffix_cons priority tighter).trans hts) (stops_tail htail hts hstops)
        (by omega)
    rw [List.append_assoc, tier, hfirst]
    exact tail_complete htail hts hstops (by omega)

theorem tail_complete {endColumn : Nat} {priority : Priority} {tighter : List Priority}
    {left : Item} {ls : List Lexeme} {item : Item} (h : Tail priority tighter left ls item)
    (hts : priority :: tighter <:+ tiers) {rest : List Lexeme}
    (hstops : Stops (priority :: tighter) rest) {bound : Nat} (hbound : 10 * ls.length < bound) :
    chain endColumn bound priority tighter left (ls ++ rest) = .ok (item, rest) := by
  obtain _ | bound := bound
  · omega
  match h with
  | .done =>
    rw [List.nil_append, chain, hstops.operator priority List.mem_cons_self]
  | @Tail.more _ _ _ _ op column ls right more _ hop hright htail =>
    obtain ⟨rfl, hpriority⟩ := mem_operators_iff.1 hop
    have hlength : (priority :: tighter).length ≤ 4 := hts.length_le
    rw [List.length_cons, List.length_append] at hbound
    rw [List.length_cons] at hlength
    have hoperand : tier endColumn bound tighter (ls ++ (more ++ rest)) =
        .ok (right, more ++ rest) :=
      tier_complete hright ((List.suffix_cons priority tighter).trans hts)
        (stops_tail htail hts hstops) (by omega)
    rw [List.cons_append, List.append_assoc, chain, operator?_symbol, if_pos hpriority]
    show (tier endColumn bound tighter (ls ++ (more ++ rest)) >>= _) = _
    rw [hoperand]
    exact tail_complete htail hts hstops (by omega)

theorem unary_complete {endColumn : Nat} {ls : List Lexeme} {item : Item} (h : Unary ls item)
    {rest : List Lexeme} (hstops : Stops [] rest) {bound : Nat}
    (hbound : 10 * ls.length ≤ bound + 8) :
    unary endColumn bound (ls ++ rest) = .ok (item, rest) := by
  have hpos := List.length_pos_iff.2 (unary_starts h endColumn rest).1
  obtain _ | bound := bound
  · omega
  match h with
  | @Unary.operator _ op column ls operand hop h =>
    obtain rfl := mem_unaryOperators_iff.1 hop
    rw [List.length_cons] at hbound
    rw [List.cons_append, unary, Symbol.unary?_eq_some_iff.2 rfl]
    show (unary endColumn bound (ls ++ rest) >>= _) = _
    rw [unary_complete h hstops (by omega)]
    rfl
  | .primary h =>
    rw [unary_of_primary h]
    exact primary_complete h hstops (by omega)

theorem primary_complete {endColumn : Nat} {ls : List Lexeme} {item : Item} (h : Primary ls item)
    {rest : List Lexeme} (hstops : Stops [] rest) {bound : Nat}
    (hbound : 10 * ls.length ≤ bound + 9) :
    primary endColumn bound (ls ++ rest) = .ok (item, rest) := by
  have hpos := List.length_pos_iff.2 (primary_starts h endColumn rest).1
  obtain _ | bound := bound
  · omega
  match h with
  | .int => rfl
  | .float => rfl
  | .str => rfl
  | .bool => rfl
  | .reference => exact primary_reference hstops.paren
  | @Primary.call name column columnOpen ls items columnClose h =>
    simp only [List.length_cons, List.length_append, List.length_nil] at hbound
    rw [List.cons_append, List.cons_append, List.append_assoc, primary]
    have harguments : arguments endColumn bound column true
        (ls ++ (⟨.symbol .closeParen, columnClose⟩ :: rest)) = .ok (items, rest) := by
      match h with
      | .none =>
        obtain ⟨bound, rfl⟩ : ∃ b, bound = b + 2 := ⟨bound - 2, by omega⟩
        rfl
      | .some h => exact arguments_complete h columnClose rest (by omega)
    show (arguments endColumn bound column true
      (ls ++ (⟨.symbol .closeParen, columnClose⟩ :: rest)) >>= _) = _
    rw [harguments]
    rfl
  | @Primary.paren columnOpen ls item columnClose h =>
    simp only [List.length_cons, List.length_append, List.length_nil] at hbound
    have hinner : expression endColumn bound (ls ++ ⟨.symbol .closeParen, columnClose⟩ :: rest) =
        .ok ((some item, ⟨.closeParen, columnClose⟩), rest) :=
      expression_of_tier h rfl (by omega) fun hstops hbound =>
        tier_complete h List.suffix_rfl hstops hbound
    rw [List.cons_append, List.append_assoc, primary]
    show (expression endColumn bound (ls ++ ⟨.symbol .closeParen, columnClose⟩ :: rest) >>= _) = _
    rw [hinner]
    rfl

theorem arguments_complete {endColumn callColumn : Nat} {first : Bool} {ls : List Lexeme}
    {items : List Item} (h : Arguments₁ ls items) (column : Nat) (rest : List Lexeme) {bound : Nat}
    (hbound : 10 * ls.length ≤ bound) :
    arguments endColumn bound callColumn first (ls ++ ⟨.symbol .closeParen, column⟩ :: rest) =
      .ok (items, rest) := by
  match h with
  | @Arguments₁.last ls item h =>
    have hpos := List.length_pos_iff.2 (tier_starts h endColumn rest).1
    obtain ⟨bound, rfl⟩ : ∃ b, bound = b + 1 := ⟨bound - 1, by omega⟩
    have hitem : expression endColumn bound (ls ++ ⟨.symbol .closeParen, column⟩ :: rest) =
        .ok ((some item, ⟨.closeParen, column⟩), rest) :=
      expression_of_tier h rfl (by omega) fun hstops hbound =>
        tier_complete h List.suffix_rfl hstops hbound
    rw [arguments, hitem]
    rfl
  | @Arguments₁.more ls item columnComma more items h hmore =>
    rw [List.length_append, List.length_cons] at hbound
    obtain ⟨bound, rfl⟩ : ∃ b, bound = b + 1 := ⟨bound - 1, by omega⟩
    have hitem : expression endColumn bound (ls ++ ⟨.symbol .comma, columnComma⟩ ::
          (more ++ ⟨.symbol .closeParen, column⟩ :: rest)) =
        .ok ((some item, ⟨.comma, columnComma⟩), more ++ ⟨.symbol .closeParen, column⟩ :: rest) :=
      expression_of_tier h rfl (by omega) fun hstops hbound =>
        tier_complete h List.suffix_rfl hstops hbound
    rw [List.append_assoc, List.cons_append, arguments, hitem]
    show (arguments endColumn bound callColumn false
      (more ++ ⟨.symbol .closeParen, column⟩ :: rest) >>= _) = _
    rw [arguments_complete hmore column rest (by omega)]
    rfl

end

/-- The depth of calls that is allowed suffices for every expression, up to the delimiter after it. -/
theorem readExpression_append {endColumn : Nat} {ls left rest : List Lexeme} {item : Item}
    {d : Delimiter} (h : Derives ls item) (hd : delimiter? endColumn left = some (d, rest)) :
    readExpression endColumn (ls ++ left) = .ok ((some item, d), rest) := by
  have hbound : 10 * ls.length ≤ depth (ls ++ left) + 2 := by
    unfold depth
    rw [List.length_append]
    omega
  exact expression_of_tier h hd hbound fun hstops hbound =>
    tier_complete h List.suffix_rfl hstops hbound

theorem readExpression_of_derives {lexemes : List Lexeme} {item : Item} (h : Derives lexemes item)
    (endColumn : Nat) :
    readExpression endColumn lexemes = .ok ((some item, ⟨.endOfInput, endColumn⟩), []) := by
  have hread : readExpression endColumn (lexemes ++ []) =
      .ok ((some item, ⟨.endOfInput, endColumn⟩), []) := readExpression_append h rfl
  rw [List.append_nil] at hread
  exact hread

end Parser

/-- The reader gives the expression that the lexemes make up. -/
theorem parseLexemes_of_derives {lexemes : List Lexeme} {item : Item} (h : Derives lexemes item)
    (endColumn : Nat) : parseLexemes endColumn lexemes = .ok item := by
  unfold parseLexemes
  rw [Parser.readExpression_of_derives h]

/-- The expression that the reader gives is what the lexemes make up. -/
theorem derives_of_parseLexemes {endColumn : Nat} {lexemes : List Lexeme} {item : Item}
    (h : parseLexemes endColumn lexemes = .ok item) : Derives lexemes item := by
  unfold parseLexemes at h
  split at h
  · nomatch h
  · next item? d rest hread =>
    obtain ⟨ls, left, rfl, hd, hls⟩ := (Parser.soundAt endColumn _).expression hread
    split at h
    · next hending =>
      obtain rfl := Except.ok.inj h
      rcases Parser.delimiter?_eq_some hd with ⟨-, rfl, -⟩ | ⟨hcomma, -⟩ | ⟨hclose, -⟩
      · rw [List.append_nil]
        exact hls
      · rw [hending] at hcomma
        nomatch hcomma
      · rw [hending] at hclose
        nomatch hclose
    all_goals nomatch h

/-- **The reader accepts exactly the grammar.** It gives an expression exactly when the lexemes make
up that expression; they make up one expression at most; and it rejects exactly the lexemes that make
up none. -/
theorem parseLexemes_iff_derives (endColumn : Nat) (lexemes : List Lexeme) :
    (∀ item, parseLexemes endColumn lexemes = .ok item ↔ Derives lexemes item) ∧
      (∀ a b, Derives lexemes a → Derives lexemes b → a = b) ∧
      ((∃ e, parseLexemes endColumn lexemes = .error e) ↔ ∀ item, ¬ Derives lexemes item) := by
  refine ⟨fun item => ⟨derives_of_parseLexemes, fun h => parseLexemes_of_derives h endColumn⟩,
    fun a b ha hb => ?_, ?_, fun h => ?_⟩
  · have hsame := (parseLexemes_of_derives ha endColumn).symm.trans
      (parseLexemes_of_derives hb endColumn)
    exact Except.ok.inj hsame
  · rintro ⟨e, he⟩ item h
    rw [parseLexemes_of_derives h] at he
    nomatch he
  · cases hparse : parseLexemes endColumn lexemes with
    | error e => exact ⟨e, rfl⟩
    | ok item => exact absurd (derives_of_parseLexemes hparse) (h item)

/-- The expression of a text is what its lexemes make up. -/
theorem parse_eq_ok_iff {source : Text} {e : Expression} : parse source = .ok e ↔
    ∃ ls, tokenize source = .ok ls ∧ Derives ls e.root ∧ e.source = source := by
  constructor
  · intro h
    obtain ⟨ls, hlexemes, hrest⟩ := bind_eq_ok_iff.1 h
    obtain ⟨root, hroot, he⟩ := bind_eq_ok_iff.1 hrest
    obtain rfl := Except.ok.inj he
    exact ⟨ls, mapError_eq_ok_iff.1 hlexemes, derives_of_parseLexemes hroot, rfl⟩
  · rintro ⟨ls, hscan, hderives, rfl⟩
    have hlexemes : lexemesOf e.source = .ok ls := mapError_eq_ok_iff.2 hscan
    exact bind_eq_ok_iff.2 ⟨ls, hlexemes,
      bind_eq_ok_iff.2 ⟨e.root, parseLexemes_of_derives hderives _, rfl⟩⟩

end SourcePreprocessor
