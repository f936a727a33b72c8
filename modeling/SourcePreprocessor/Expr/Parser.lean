import SourcePreprocessor.Expr.Item
import SourcePreprocessor.Expr.Lexer
import SourcePreprocessor.Text.Case

/-!
# From tokens to expressions

The grammar has one tier per priority, each a chain of operands of the next tighter tier:

> logical        := comparison (("&&" | "||" | "^") comparison)*
> comparison     := additive (("==" | "!=" | "<" | ">" | "<=" | ">=") additive)*
> additive       := multiplicative (("+" | "-") multiplicative)*
> multiplicative := unary (("*" | "/" | "%") unary)*
> unary          := ("!" | "-") unary | primary
> primary        := literal | name | name "(" [logical ("," logical)*] ")" | "(" logical ")"

Chains associate to the left and names are read in lower case. An expression ends at the end of the
input, at a comma or at a closing parenthesis, and the reader of an expression says which, so that
arguments and lists are read one expression at a time. A failure carries the lexemes that were not
yet read.

The four chains are one function of their tier. Every reader is given the lexemes that are left and
hands on those that it leaves; a place among all lexemes, which moves as they are read, is kept only
where they are read step by step (`Cursor`).

Every function takes a bound on the depth of its calls; `depth` is a bound that no input of that
length exceeds, and the public functions use it. It is no limit of the language: what the grammar
derives is read at any depth (`Proofs.Expr.Grammar`).
-/

namespace SourcePreprocessor

/-- A failed reading: why, and the lexemes after the last one that was read. -/
structure ParseFailure where
  error : ParseError
  rest : List Lexeme

/-- What a reader gives, or its failure. A result comes with the lexemes after it. -/
abbrev Parsed := Except ParseFailure

/-- The three ways an expression ends. -/
inductive Ending where
  | endOfInput
  | comma
  | closeParen
  deriving DecidableEq, Repr

/-- What ended an expression, and where. -/
structure Delimiter where
  ending : Ending
  column : Nat
  deriving DecidableEq, Repr

namespace Parser

/-- The column of the next lexeme. -/
def columnAt (endColumn : Nat) : List Lexeme → Nat
  | [] => endColumn
  | lexeme :: _ => lexeme.column

/-- The delimiter that comes next, if one does. -/
def delimiter? (endColumn : Nat) : List Lexeme → Option (Delimiter × List Lexeme)
  | [] => some (⟨.endOfInput, endColumn⟩, [])
  | ⟨.symbol .comma, column⟩ :: rest => some (⟨.comma, column⟩, rest)
  | ⟨.symbol .closeParen, column⟩ :: rest => some (⟨.closeParen, column⟩, rest)
  | _ :: _ => none

/-- The operator of the given tier that comes next, with its column, if one does. -/
def operator? (tier : Priority) : List Lexeme → Option (BinaryOperator × Nat × List Lexeme)
  | ⟨.symbol s, column⟩ :: rest =>
    match s.binary? with
    | some op => if op.priority = tier then some (op, column, rest) else none
    | none => none
  | _ => none

/-- The failure at a token that may not stand where it does. -/
def unexpected (endColumn : Nat) : List Lexeme → ParseFailure
  | [] => ⟨.unexpectedToken [] endColumn, []⟩
  | lexeme :: rest => ⟨.unexpectedToken lexeme.token.text lexeme.column, lexeme :: rest⟩

/-- The tiers of binary operators, from the loosest on. -/
def tiers : List Priority := [.logical, .comparison, .additive, .multiplicative]

mutual

/-- Reads an expression and what ended it. There is no expression when the delimiter comes
first. -/
def expression (endColumn : Nat) :
    Nat → List Lexeme → Parsed ((Option Item × Delimiter) × List Lexeme)
  | 0, lexemes => .error (unexpected endColumn lexemes)
  | depth + 1, lexemes =>
    match delimiter? endColumn lexemes with
    | some (delimiter, rest) => .ok ((none, delimiter), rest)
    | none => do
      let (item, rest) ← tier endColumn depth tiers lexemes
      match delimiter? endColumn rest with
      | some (delimiter, rest) => .ok ((some item, delimiter), rest)
      | none => .error (unexpected endColumn rest)

/-- Reads a chain of the first of the given tiers. -/
def tier (endColumn : Nat) : Nat → List Priority → List Lexeme → Parsed (Item × List Lexeme)
  | 0, _, lexemes => .error (unexpected endColumn lexemes)
  | depth + 1, [], lexemes => unary endColumn depth lexemes
  | depth + 1, priority :: tighter, lexemes => do
    let (left, rest) ← tier endColumn depth tighter lexemes
    chain endColumn depth priority tighter left rest

/-- Goes on with a chain whose operands so far make up `left`. -/
def chain (endColumn : Nat) :
    Nat → Priority → List Priority → (left : Item) → List Lexeme → Parsed (Item × List Lexeme)
  | 0, _, _, _, lexemes => .error (unexpected endColumn lexemes)
  | depth + 1, priority, tighter, left, lexemes =>
    match operator? priority lexemes with
    | none => .ok (left, lexemes)
    | some (op, column, rest) => do
      let (right, rest) ← tier endColumn depth tighter rest
      chain endColumn depth priority tighter (.binary op left right column) rest

/-- Reads unary operators and their operand. -/
def unary (endColumn : Nat) : Nat → List Lexeme → Parsed (Item × List Lexeme)
  | 0, lexemes => .error (unexpected endColumn lexemes)
  | depth + 1, ⟨.symbol s, column⟩ :: rest =>
    match s.unary? with
    | some op => do
      let (operand, rest) ← unary endColumn depth rest
      .ok (.unary op operand column, rest)
    | none => primary endColumn depth (⟨.symbol s, column⟩ :: rest)
  | depth + 1, lexemes => primary endColumn depth lexemes

/-- Reads a literal, a reference, a call or an expression in parentheses. -/
def primary (endColumn : Nat) : Nat → List Lexeme → Parsed (Item × List Lexeme)
  | 0, lexemes => .error (unexpected endColumn lexemes)
  | _ + 1, [] => .error ⟨.missingOperand endColumn, []⟩
  | _ + 1, ⟨.int n, _⟩ :: rest => .ok (.value (.int n), rest)
  | _ + 1, ⟨.float x, _⟩ :: rest => .ok (.value (.float x), rest)
  | _ + 1, ⟨.str t, _⟩ :: rest => .ok (.value (.str t), rest)
  | _ + 1, ⟨.bool b, _⟩ :: rest => .ok (.value (.bool b), rest)
  | depth + 1, ⟨.name name, column⟩ :: ⟨.symbol .openParen, _⟩ :: rest => do
    let (arguments, rest) ← arguments endColumn depth column true rest
    .ok (.call (Text.lower name) arguments column, rest)
  | _ + 1, ⟨.name name, column⟩ :: rest => .ok (.reference (Text.lower name) column, rest)
  | depth + 1, ⟨.symbol .openParen, column⟩ :: rest => do
    let ((item?, delimiter), rest) ← expression endColumn depth rest
    match delimiter.ending, item? with
    | .closeParen, some item => .ok (item, rest)
    | .closeParen, none => .error ⟨.emptyExpression delimiter.column, rest⟩
    | .comma, _ => .error ⟨.unexpectedComma delimiter.column, rest⟩
    | .endOfInput, _ => .error ⟨.unbalancedParenthesis column, rest⟩
  | _ + 1, ⟨.symbol .comma, column⟩ :: rest => .error ⟨.missingOperand column, rest⟩
  | _ + 1, ⟨.symbol .closeParen, column⟩ :: rest => .error ⟨.missingOperand column, rest⟩
  | _ + 1, ⟨.symbol s, column⟩ :: rest => .error ⟨.unexpectedToken s.text column, rest⟩

/-- Reads the arguments of a call up to its closing parenthesis; `first` before the first one. -/
def arguments (endColumn : Nat) :
    Nat → (callColumn : Nat) → (first : Bool) → List Lexeme → Parsed (List Item × List Lexeme)
  | 0, _, _, lexemes => .error (unexpected endColumn lexemes)
  | depth + 1, callColumn, first, lexemes => do
    let ((item?, delimiter), rest) ← expression endColumn depth lexemes
    match delimiter.ending, item? with
    | .endOfInput, _ => .error ⟨.unbalancedParenthesis callColumn, rest⟩
    | .comma, some item => do
      let (items, rest) ← arguments endColumn depth callColumn false rest
      .ok (item :: items, rest)
    | .closeParen, some item => .ok ([item], rest)
    | .closeParen, none =>
      if first then .ok ([], rest) else .error ⟨.emptyArgument delimiter.column, rest⟩
    | .comma, none => .error ⟨.emptyArgument delimiter.column, rest⟩

end

/-- A depth of calls that reading the lexemes does not exceed. -/
def depth (lexemes : List Lexeme) : Nat := 10 * (lexemes.length + 1)

end Parser

/-- Reads one expression and what ended it. -/
def readExpression (endColumn : Nat) (lexemes : List Lexeme) :
    Parsed ((Option Item × Delimiter) × List Lexeme) :=
  Parser.expression endColumn (Parser.depth lexemes) lexemes

/-- The expression that the lexemes make up. -/
def parseLexemes (endColumn : Nat) (lexemes : List Lexeme) : Except ParseError Item :=
  match readExpression endColumn lexemes with
  | .error failure => .error failure.error
  | .ok ((item?, delimiter), _) =>
    match delimiter.ending, item? with
    | .endOfInput, some item => .ok item
    | .endOfInput, none => .error (.emptyExpression delimiter.column)
    | .comma, _ => .error (.unexpectedComma delimiter.column)
    | .closeParen, _ => .error (.unbalancedParenthesis delimiter.column)

/-- The expressions that the lexemes make up, one between each two commas; `first` before the first
one. No more of them are read than the bound says. -/
def parseItems (endColumn : Nat) :
    (bound : Nat) → (first : Bool) → List Lexeme → Except ParseError (List Item)
  | 0, _, lexemes => .error (Parser.unexpected endColumn lexemes).error
  | bound + 1, first, lexemes =>
    match readExpression endColumn lexemes with
    | .error failure => .error failure.error
    | .ok ((item?, delimiter), rest) =>
      match delimiter.ending, item? with
      | .comma, some item => (parseItems endColumn bound false rest).map (item :: ·)
      | .endOfInput, some item => .ok [item]
      | .endOfInput, none =>
        if first then .error (.emptyExpression delimiter.column)
        else .error (.emptyArgument delimiter.column)
      | .comma, none => .error (.emptyArgument delimiter.column)
      | .closeParen, _ => .error (.unbalancedParenthesis delimiter.column)

/-- The lexemes of a text, or why it is not an expression. -/
def lexemesOf (source : Text) : Except ParseError (List Lexeme) :=
  (tokenize source).mapError .lex

/-- The column just past a text. -/
def columnPast (source : Text) : Nat := source.length + 1

/-- The expression that a text holds. -/
def parse (source : Text) : Except ParseError Expression := do
  let root ← parseLexemes (columnPast source) (← lexemesOf source)
  return ⟨root, source⟩

/-- The expressions of a comma separated list. Each remembers the text of the whole list. -/
def parseList (source : Text) : Except ParseError (List Expression) := do
  let lexemes ← lexemesOf source
  let items ← parseItems (columnPast source) (lexemes.length + 1) true lexemes
  return items.map fun item => ⟨item, source⟩

/-- A place among the lexemes of a text, for reading them step by step. -/
structure Cursor where
  lexemes : List Lexeme
  endColumn : Nat
  position : Nat

namespace Cursor

/-- The start of a text. -/
def start (source : Text) (lexemes : List Lexeme) : Cursor := ⟨lexemes, columnPast source, 0⟩

/-- The lexemes not yet read. -/
def rest (c : Cursor) : List Lexeme := c.lexemes.drop c.position

/-- The next lexeme. -/
def peek? (c : Cursor) : Option Lexeme := c.lexemes[c.position]?

/-- The column of the next lexeme. -/
def column (c : Cursor) : Nat := Parser.columnAt c.endColumn c.rest

/-- Reads a lexeme. -/
def read (c : Cursor) : Option Lexeme × Cursor :=
  match c.peek? with
  | some lexeme => (some lexeme, { c with position := c.position + 1 })
  | none => (none, c)

/-- Goes back by one lexeme. -/
def unread (c : Cursor) : Cursor := { c with position := c.position - 1 }

/-- The place where the given lexemes are left. -/
def withRest (c : Cursor) (rest : List Lexeme) : Cursor :=
  { c with position := c.lexemes.length - rest.length }

/-- Reads an expression. A failure leaves the place where it was found. -/
def expression (c : Cursor) : Except ParseError (Option Item × Delimiter) × Cursor :=
  match readExpression c.endColumn c.rest with
  | .ok (found, rest) => (.ok found, c.withRest rest)
  | .error failure => (.error failure.error, c.withRest failure.rest)

end Cursor

end SourcePreprocessor
