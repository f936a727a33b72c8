import Mathlib.Data.List.Forall2
import SourcePreprocessor.Proofs.Expr.Grammar

/-!
# A list of expressions is cut at its commas

A comma separates two expressions of a list when it stands outside of all parentheses, and two
arguments of a call when it stands inside. The reader of lists knows which it is from where it is in
the grammar. Here the lexemes are cut without a grammar: `segments` counts the parentheses and cuts
at every comma that has none open before it.

> `uncut_of_derives`: no such comma stands in the lexemes of one expression, so they stay together;
> `parseList_segments`: the list has expressions exactly when each segment on its own is one, and
> these are then the expressions of the list.

The count may go below zero, where a closing parenthesis has no opening one. No segment with such a
parenthesis is an expression, and the list is none either.
-/

namespace SourcePreprocessor

/-- What a token adds to the number of open parentheses. -/
def Token.nesting : Token → Int
  | .symbol .openParen => 1
  | .symbol .closeParen => -1
  | _ => 0

/-- The number of parentheses that the lexemes leave open. -/
def nesting : List Lexeme → Int
  | [] => 0
  | lexeme :: lexemes => lexeme.token.nesting + nesting lexemes

/-- The lexemes between the commas before which no parenthesis is open. At the start there are
`depth` open ones. -/
def segments (depth : Int) : List Lexeme → List (List Lexeme)
  | [] => [[]]
  | lexeme :: lexemes =>
    if lexeme.token = .symbol .comma ∧ depth = 0 then [] :: segments depth lexemes
    else (segments (depth + lexeme.token.nesting) lexemes).modifyHead (lexeme :: ·)

/-! ## Cutting -/

theorem segments_ne_nil (depth : Int) (lexemes : List Lexeme) : segments depth lexemes ≠ [] := by
  induction lexemes generalizing depth with
  | nil => nofun
  | cons lexeme lexemes ih =>
    rw [segments]
    split
    · nofun
    · rw [ne_eq, List.modifyHead_eq_nil_iff]
      exact ih _

theorem segments_comma (column : Nat) (rest : List Lexeme) :
    segments 0 (⟨.symbol .comma, column⟩ :: rest) = [] :: segments 0 rest :=
  if_pos ⟨rfl, rfl⟩

/-- There is a cut at every comma that no parenthesis is open before. -/
theorem segments_append_comma {depth : Int} {before : List Lexeme} (h : depth + nesting before = 0)
    (column : Nat) (rest : List Lexeme) :
    segments depth (before ++ ⟨.symbol .comma, column⟩ :: rest) =
      segments depth before ++ segments 0 rest := by
  induction before generalizing depth with
  | nil =>
    obtain rfl : depth = 0 := by simpa [nesting] using h
    exact segments_comma column rest
  | cons lexeme before ih =>
    rw [nesting] at h
    rw [List.cons_append, segments, segments]
    split
    · next hcomma =>
      have hzero : lexeme.token.nesting = 0 := by rw [hcomma.1]; rfl
      rw [ih (by omega)]
      rfl
    · rw [ih (by omega)]
      obtain ⟨first, others, hsegments⟩ := List.exists_cons_of_ne_nil
        (segments_ne_nil (depth + lexeme.token.nesting) before)
      rw [hsegments]
      rfl

/-- The first segment is all there is, or a comma follows it and then the other segments. -/
theorem segments_cases {depth : Int} {lexemes first : List Lexeme} {others : List (List Lexeme)}
    (h : segments depth lexemes = first :: others) :
    others = [] ∧ lexemes = first ∨
      ∃ column rest, lexemes = first ++ ⟨.symbol .comma, column⟩ :: rest ∧
        segments 0 rest = others := by
  induction lexemes generalizing depth first with
  | nil =>
    obtain ⟨rfl, rfl⟩ := List.cons.inj h
    exact .inl ⟨rfl, rfl⟩
  | cons lexeme lexemes ih =>
    rw [segments] at h
    split at h
    · next hcomma =>
      obtain ⟨token, column⟩ := lexeme
      obtain ⟨rfl, rfl⟩ := hcomma
      obtain ⟨rfl, rfl⟩ := List.cons.inj h
      exact .inr ⟨column, lexemes, rfl, rfl⟩
    · obtain ⟨start, more, hsegments⟩ := List.exists_cons_of_ne_nil
        (segments_ne_nil (depth + lexeme.token.nesting) lexemes)
      rw [hsegments, List.modifyHead_cons] at h
      obtain ⟨rfl, rfl⟩ := List.cons.inj h
      obtain ⟨hmore, rfl⟩ | ⟨column, rest, rfl, hrest⟩ := ih hsegments
      · exact .inl ⟨hmore, rfl⟩
      · exact .inr ⟨column, rest, rfl, hrest⟩

/-! ## What is not cut -/

/-- Whatever follows the lexemes, they stay together at the start of the first segment, and no
parenthesis is left open after them. -/
def Uncut (depth : Int) (ls : List Lexeme) : Prop :=
  ∀ rest, segments depth (ls ++ rest) = (segments depth rest).modifyHead (ls ++ ·)

namespace Uncut

theorem nil (depth : Int) : Uncut depth [] := by
  intro rest
  obtain ⟨first, others, h⟩ := List.exists_cons_of_ne_nil (segments_ne_nil depth rest)
  rw [List.nil_append, h]
  rfl

theorem append {depth : Int} {ls ms : List Lexeme} (hl : Uncut depth ls) (hm : Uncut depth ms) :
    Uncut depth (ls ++ ms) := by
  intro rest
  rw [List.append_assoc, hl, hm, List.modifyHead_modifyHead]
  congr 1
  funext first
  exact (List.append_assoc ls ms first).symm

/-- A lexeme that is no parenthesis and no comma to cut at. -/
theorem single {depth : Int} {lexeme : Lexeme} (hnesting : lexeme.token.nesting = 0)
    (hcomma : ¬ (lexeme.token = .symbol .comma ∧ depth = 0)) : Uncut depth [lexeme] := by
  intro rest
  rw [List.singleton_append, segments, if_neg hcomma, hnesting, Int.add_zero]
  rfl

/-- Lexemes in parentheses, which are one deeper. -/
theorem paren {depth : Int} {ls : List Lexeme} (h : Uncut (depth + 1) ls)
    (columnOpen columnClose : Nat) :
    Uncut depth
      (⟨.symbol .openParen, columnOpen⟩ :: (ls ++ [⟨.symbol .closeParen, columnClose⟩])) := by
  intro rest
  have hclose : segments (depth + 1) (⟨.symbol .closeParen, columnClose⟩ :: rest) =
      (segments depth rest).modifyHead (⟨.symbol .closeParen, columnClose⟩ :: ·) := by
    rw [segments, if_neg nofun]
    show (segments (depth + 1 + -1) rest).modifyHead _ = _
    rw [Int.add_neg_cancel_right]
  rw [List.cons_append, List.append_assoc, segments, if_neg nofun]
  show (segments (depth + 1) (ls ++ (⟨.symbol .closeParen, columnClose⟩ :: rest))).modifyHead _ = _
  rw [h, hclose, List.modifyHead_modifyHead, List.modifyHead_modifyHead]
  congr 1
  funext first
  show _ = _ :: (ls ++ [_] ++ first)
  rw [List.append_assoc]
  rfl

end Uncut

open Grammar

-- The induction is on the derivation. The depth is general because the lexemes of an expression
-- also stand in the parentheses of others; it only is never negative, and positive among the
-- arguments of a call, so that no comma between them is one to cut at.
mutual

theorem uncut_of_tier {ts : List Priority} {ls : List Lexeme} {item : Item} (h : Tier ts ls item)
    {depth : Int} (hdepth : 0 ≤ depth) : Uncut depth ls := by
  match h with
  | .unary h => exact uncut_of_unary h hdepth
  | .chain h htail => exact (uncut_of_tier h hdepth).append (uncut_of_tail htail hdepth)

theorem uncut_of_tail {priority : Priority} {tighter : List Priority} {left item : Item}
    {ls : List Lexeme} (h : Tail priority tighter left ls item) {depth : Int} (hdepth : 0 ≤ depth) :
    Uncut depth ls := by
  match h, hdepth with
  | .done, _ => exact .nil depth
  | @Tail.more _ _ _ symbol op column ls right rest _ hop hright htail, hdepth =>
    have hsymbol : Uncut depth [⟨.symbol symbol, column⟩] := by
      obtain ⟨rfl, -⟩ := mem_operators_iff.1 hop
      cases op <;> exact .single rfl nofun
    exact hsymbol.append ((uncut_of_tier hright hdepth).append (uncut_of_tail htail hdepth))

theorem uncut_of_unary {ls : List Lexeme} {item : Item} (h : Unary ls item) {depth : Int}
    (hdepth : 0 ≤ depth) : Uncut depth ls := by
  match h with
  | @Unary.operator symbol op column ls operand hop h =>
    have hsymbol : Uncut depth [⟨.symbol symbol, column⟩] := by
      obtain rfl := mem_unaryOperators_iff.1 hop
      cases op <;> exact .single rfl nofun
    exact hsymbol.append (uncut_of_unary h hdepth)
  | .primary h => exact uncut_of_primary h hdepth

theorem uncut_of_primary {ls : List Lexeme} {item : Item} (h : Primary ls item) {depth : Int}
    (hdepth : 0 ≤ depth) : Uncut depth ls := by
  match h with
  | .int | .float | .str | .bool | .reference => exact .single rfl nofun
  | @Primary.call name column columnOpen ls items columnClose h =>
    have hname : Uncut depth [⟨.name name, column⟩] := .single rfl nofun
    refine hname.append (.paren ?_ columnOpen columnClose)
    match h with
    | .none => exact .nil _
    | .some h => exact uncut_of_arguments h (by omega)
  | .paren h => exact .paren (uncut_of_tier h (by omega)) _ _

theorem uncut_of_arguments {ls : List Lexeme} {items : List Item} (h : Arguments₁ ls items)
    {depth : Int} (hdepth : 0 < depth) : Uncut depth ls := by
  match h with
  | .last h => exact uncut_of_tier h (by omega)
  | @Arguments₁.more ls item column rest items h hmore =>
    have hcomma : Uncut depth [⟨.symbol .comma, column⟩] := .single rfl fun h => by omega
    exact (uncut_of_tier h (by omega)).append (hcomma.append (uncut_of_arguments hmore hdepth))

end

/-- The lexemes of one expression stay together. -/
theorem uncut_of_derives {ls : List Lexeme} {item : Item} (h : Derives ls item) : Uncut 0 ls :=
  uncut_of_tier h (Int.le_refl 0)

theorem segments_of_derives {ls : List Lexeme} {item : Item} (h : Derives ls item) :
    segments 0 ls = [ls] := by
  have huncut := uncut_of_derives h []
  rw [List.append_nil] at huncut
  rw [huncut, segments, List.modifyHead_cons, List.append_nil]

/-! ## The reader of lists -/

/-- What the reader of lists reads are the segments, one expression each. -/
theorem derives_of_parseItems {endColumn bound : Nat} {first : Bool} {lexemes : List Lexeme}
    {items : List Item} (h : parseItems endColumn bound first lexemes = .ok items) :
    List.Forall₂ Derives (segments 0 lexemes) items := by
  induction bound generalizing first lexemes items with
  | zero => nomatch h
  | succ bound ih =>
    rw [parseItems] at h
    split at h
    · nomatch h
    · next item? d rest hread =>
      obtain ⟨ls, left, rfl, hd, hls⟩ := (Parser.soundAt endColumn _).expression hread
      obtain ⟨ending, column⟩ := d
      -- the expression ends at the end of the lexemes or at a comma, or the list fails
      obtain ⟨hend, rfl, -⟩ | ⟨rfl, rfl⟩ | ⟨rfl, -⟩ := Parser.delimiter?_eq_some hd
      · obtain ⟨rfl, -⟩ := Delimiter.mk.inj hend
        cases item? with
        | none => cases first <;> nomatch h
        | some item =>
          obtain rfl := Except.ok.inj h
          rw [List.append_nil, segments_of_derives hls]
          exact .cons hls .nil
      · cases item? with
        | none => nomatch h
        | some item =>
          obtain ⟨others, hothers, rfl⟩ := map_eq_ok_iff.1 h
          rw [uncut_of_derives hls, segments_comma, List.modifyHead_cons, List.append_nil]
          exact .cons hls (ih hothers)
      · nomatch h

/-- When each segment makes up an expression the reader of lists reads them all. -/
theorem parseItems_of_derives {lexemes : List Lexeme} {items : List Item}
    (h : List.Forall₂ Derives (segments 0 lexemes) items) (endColumn : Nat) {bound : Nat}
    (hbound : lexemes.length < bound) (first : Bool) :
    parseItems endColumn bound first lexemes = .ok items := by
  induction bound generalizing first lexemes items with
  | zero => nomatch hbound
  | succ bound ih =>
    obtain ⟨segment, others, hsegments⟩ := List.exists_cons_of_ne_nil (segments_ne_nil 0 lexemes)
    rw [hsegments] at h
    obtain ⟨item, more, hitem, hmore, rfl⟩ := List.forall₂_cons_left_iff.1 h
    obtain ⟨rfl, rfl⟩ | ⟨column, rest, rfl, rfl⟩ := segments_cases hsegments
    · obtain rfl := List.forall₂_nil_left_iff.1 hmore
      rw [parseItems, Parser.readExpression_of_derives hitem]
    · rw [List.length_append, List.length_cons] at hbound
      have hread : readExpression endColumn (segment ++ ⟨.symbol .comma, column⟩ :: rest) =
          .ok ((some item, ⟨.comma, column⟩), rest) := Parser.readExpression_append hitem rfl
      rw [parseItems, hread]
      show (parseItems endColumn bound false rest).map _ = _
      rw [ih hmore (by omega) false]
      rfl

theorem ne_nil_of_derives {ls : List Lexeme} {item : Item} (h : Derives ls item) : ls ≠ [] :=
  (Parser.tier_starts h 0 []).1

/-- A comma to cut at leaves a segment empty when there is nothing before it, nothing after it, or
another comma right after it. -/
theorem nil_mem_segments {before rest : List Lexeme} {column : Nat} (hbefore : nesting before = 0)
    (h : before = [] ∨ rest = [] ∨ ∃ next others, rest = ⟨.symbol .comma, next⟩ :: others) :
    [] ∈ segments 0 (before ++ ⟨.symbol .comma, column⟩ :: rest) := by
  rw [segments_append_comma (by rw [hbefore]; rfl), List.mem_append]
  obtain rfl | rfl | ⟨next, others, rfl⟩ := h
  · exact .inl List.mem_cons_self
  · exact .inr List.mem_cons_self
  · rw [segments_comma]
    exact .inr List.mem_cons_self

/-- The expressions of a list are what its segments make up. -/
theorem parseList_eq_ok_iff {source : Text} {lexemes : List Lexeme}
    (h : tokenize source = .ok lexemes) {es : List Expression} :
    parseList source = .ok es ↔ ∃ items, List.Forall₂ Derives (segments 0 lexemes) items ∧
      es = items.map fun item => ⟨item, source⟩ := by
  constructor
  · intro hlist
    obtain ⟨ls, hls, hlist⟩ := bind_eq_ok_iff.1 hlist
    obtain rfl := Except.ok.inj ((mapError_eq_ok_iff.1 hls).symm.trans h)
    obtain ⟨items, hitems, hes⟩ := bind_eq_ok_iff.1 hlist
    exact ⟨items, derives_of_parseItems hitems, (Except.ok.inj hes).symm⟩
  · rintro ⟨items, hitems, rfl⟩
    refine bind_eq_ok_iff.2 ⟨lexemes, mapError_eq_ok_iff.2 h, bind_eq_ok_iff.2 ⟨items, ?_, rfl⟩⟩
    exact parseItems_of_derives hitems (columnPast source) (Nat.lt_succ_self _) true

/-- **A list of expressions is cut at its commas.** Let the lexemes of a text be cut at every comma
that no parenthesis is open before. The text is a list of expressions exactly when each segment on
its own is read as an expression up to its end, and the expressions of the list are then those of
the segments in their order, columns included. A text that holds one expression is the list of this
expression. A text with a segment without lexemes is no list, in particular one with such a comma at
its start, at its end or right before another comma. -/
theorem parseList_segments {source : Text} {lexemes : List Lexeme}
    (h : tokenize source = .ok lexemes) :
    (∀ es, parseList source = .ok es ↔ ∃ items,
      List.Forall₂ (fun segment item => parseLexemes (columnPast source) segment = .ok item)
        (segments 0 lexemes) items ∧ es = items.map fun item => ⟨item, source⟩) ∧
    (∀ e, parse source = .ok e → parseList source = .ok [e]) ∧
    ([] ∈ segments 0 lexemes → ∃ e, parseList source = .error e) ∧
    ∀ before column rest, lexemes = before ++ ⟨.symbol .comma, column⟩ :: rest →
      nesting before = 0 →
      before = [] ∨ rest = [] ∨ (∃ next others, rest = ⟨.symbol .comma, next⟩ :: others) →
      ∃ e, parseList source = .error e := by
  have hempty : [] ∈ segments 0 lexemes → ∃ e, parseList source = .error e := by
    intro hmem
    cases hlist : parseList source with
    | error e => exact ⟨e, rfl⟩
    | ok es =>
      obtain ⟨items, hitems, -⟩ := (parseList_eq_ok_iff h).1 hlist
      have hne : List.Forall₂ (fun segment item => segment ≠ [] ∧ Derives segment item)
          (segments 0 lexemes) items := hitems.imp fun _ _ hitem => ⟨ne_nil_of_derives hitem, hitem⟩
      exact absurd rfl (((List.forall₂_and_left _ _).1 hne).1 [] hmem)
  refine ⟨fun es => ?_, fun e he => ?_, hempty,
    fun before column rest hlexemes hbefore hcases => ?_⟩
  · rw [parseList_eq_ok_iff h]
    constructor
    · rintro ⟨items, hitems, rfl⟩
      exact ⟨items, hitems.imp fun _ _ hitem => parseLexemes_of_derives hitem _, rfl⟩
    · rintro ⟨items, hitems, rfl⟩
      exact ⟨items, hitems.imp fun _ _ hitem => derives_of_parseLexemes hitem, rfl⟩
  · obtain ⟨ls, hls, hderives, rfl⟩ := parse_eq_ok_iff.1 he
    obtain rfl := Except.ok.inj (hls.symm.trans h)
    refine (parseList_eq_ok_iff h).2 ⟨[e.root], ?_, rfl⟩
    rw [segments_of_derives hderives]
    exact .cons hderives .nil
  · subst hlexemes
    exact hempty (nil_mem_segments hbefore hcases)

/-- A call with two arguments, and a number in parentheses after a comma. -/
def callAndNumber : Text := "f(1, x), (2)".toList

/-- The lexemes of the call. -/
def callPart : List Lexeme :=
  [⟨.name ['f'], 1⟩, ⟨.symbol .openParen, 2⟩, ⟨.int 1, 3⟩, ⟨.symbol .comma, 4⟩, ⟨.name ['x'], 6⟩,
    ⟨.symbol .closeParen, 7⟩]

/-- The lexemes of the number. -/
def numberPart : List Lexeme :=
  [⟨.symbol .openParen, 10⟩, ⟨.int 2, 11⟩, ⟨.symbol .closeParen, 12⟩]

/-- Only the second comma is one to cut at. -/
theorem callAndNumber_segments :
    tokenize callAndNumber = .ok (callPart ++ ⟨.symbol .comma, 8⟩ :: numberPart) ∧
    segments 0 (callPart ++ ⟨.symbol .comma, 8⟩ :: numberPart) = [callPart, numberPart] ∧
    parseList callAndNumber = .ok [
      ⟨.call ['f'] [.value (.int 1), .reference ['x'] 6] 1, callAndNumber⟩,
      ⟨.value (.int 2), callAndNumber⟩] := by
  have htokens : tokenize callAndNumber = .ok (callPart ++ ⟨.symbol .comma, 8⟩ :: numberPart) :=
    eq_ok_of_toOption (by decide +kernel)
  have hsegments : segments 0 (callPart ++ ⟨.symbol .comma, 8⟩ :: numberPart) =
      [callPart, numberPart] := by decide +kernel
  refine ⟨htokens, hsegments, ((parseList_segments htokens).1 _).2
    ⟨[.call ['f'] [.value (.int 1), .reference ['x'] 6] 1, .value (.int 2)], ?_, rfl⟩⟩
  rw [hsegments]
  exact .cons (by rfl) (.cons (by rfl) .nil)

end SourcePreprocessor
