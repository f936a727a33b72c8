import SourcePreprocessor.Expr.Error
import SourcePreprocessor.Expr.Name
import SourcePreprocessor.Expr.Token

/-!
# From text to tokens

The text of an expression is a sequence of lexemes with blanks between them; only five blank
characters count here. At each place the longest lexeme is taken. `lexemeAt` says what stands at the
start of a text and how many characters it takes, and `scan` repeats it from left to right.

A numeral that letters, digits, underscores or dollar signs directly follow is malformed together
with them. The first character sequence that is no lexeme stops the scan, and everything before it
was lexemes and blanks.

The scan follows the characters; it does not match patterns against them. The patterns of the
lexemes stand in `Proofs.Expr.Patterns`, and the longest match is what `lexemeAt` takes.
-/

namespace SourcePreprocessor

/-- The blanks between lexemes. -/
def isSkipped (c : Char) : Bool :=
  c = ' ' || c = '\t' || c = '\r' || c = '\n' || c = '\x0c'

/-- What a scan found at the start of a text, and the number of characters it took. -/
structure Found (α : Type) where
  result : Except LexErrorKind α
  length : Nat

namespace Found

/-- A valid find. -/
def ok {α : Type} (a : α) (length : Nat) : Found α := ⟨.ok a, length⟩

/-- A find that is no lexeme. -/
def error {α : Type} (kind : LexErrorKind) (length : Nat) : Found α := ⟨.error kind, length⟩

/-- A find that goes through a function. -/
def map {α β : Type} (f : α → β) (found : Found α) : Found β := ⟨found.result.map f, found.length⟩

/-- A text that has one more character in front, which took `length` characters to write. -/
def push (c : Char) (length : Nat) (found : Found Text) : Found Text :=
  ⟨found.result.map (c :: ·), found.length + length⟩

end Found

/-! ## Text literals -/

/-- The character that a letter after a backslash stands for. -/
def escaped? : Char → Option Char
  | 'n' => some '\n'
  | 't' => some '\t'
  | 'r' => some '\r'
  | 'b' => some '\x08'
  | 'f' => some '\x0c'
  | '\\' => some '\\'
  | '"' => some '"'
  | '\'' => some '\''
  | _ => none

/-- The character with the given code, unless that is half of a surrogate pair. -/
def scalar? (n : Nat) : Option Char := if n.isValidChar then some (Char.ofNat n) else none

/-- The character that four characters after `\u` stand for: hexadecimal digits, or a plus sign and
three of them. -/
def codeEscape? (a b c d : Char) : Option Char :=
  if a = '+' then
    if [b, c, d].all Number.isHexDigit then scalar? (Number.ofHexDigits [b, c, d]) else none
  else if [a, b, c, d].all Number.isHexDigit then scalar? (Number.ofHexDigits [a, b, c, d])
  else none

/-- Reads a text literal after its opening quote, up to and with its closing one. -/
def stringBody : Text → Found Text
  | [] => .error .unterminatedString 0
  | '"' :: _ => .ok [] 1
  | ['\\'] => .error .unterminatedString 1
  | '\\' :: 'u' :: a :: b :: c :: d :: rest =>
    match codeEscape? a b c d with
    | some x => .push x 6 (stringBody rest)
    | none => .error .unknownEscape 6
  | '\\' :: 'u' :: rest => .error .unknownEscape (2 + rest.length)
  | '\\' :: letter :: rest =>
    match escaped? letter with
    | some x => .push x 2 (stringBody rest)
    | none => .error .unknownEscape 2
  | c :: rest => .push c 1 (stringBody rest)

/-! ## Numerals -/

/-- The number of digits that lead a text. -/
def digitCount (t : Text) : Nat := (t.takeWhile Char.isDigit).length

/-- The length of the exponent that leads a text, zero when none does. -/
def exponentLength : Text → Nat
  | [] => 0
  | e :: rest =>
    if e = 'e' || e = 'E' then
      let sign := match rest with
        | c :: _ => if c = '+' || c = '-' then 1 else 0
        | [] => 0
      let digits := digitCount (rest.drop sign)
      if digits = 0 then 0 else 1 + sign + digits
    else 0

/-- Whether a text starts as a hexadecimal numeral does. -/
def startsHex : Text → Bool
  | '0' :: 'x' :: _ => true
  | '0' :: 'X' :: _ => true
  | _ => false

/-- The length of the digits that lead a text, with a point among them if there is one and a digit
beside it. -/
def mantissaLength (t : Text) : Nat :=
  match t.drop (digitCount t) with
  | '.' :: rest =>
    if digitCount t = 0 && digitCount rest = 0 then 0 else digitCount t + 1 + digitCount rest
  | _ => digitCount t

/-- The length of the longest numeral that leads a text, zero when none does. -/
def numeralLength (t : Text) : Nat :=
  if startsHex t then 2 + ((t.drop 2).takeWhile Number.isHexDigit).length
  else if mantissaLength t = 0 then 0
  else mantissaLength t + exponentLength (t.drop (mantissaLength t))

/-- The integer token of a number, if it fits. -/
def integerToken (n : Nat) : Except LexErrorKind Token :=
  match Number.narrow? n with
  | some m => .ok (.int m)
  | none => .error .integerOverflow

/-- The token of a numeral. -/
def numeralToken (t : Text) : Except LexErrorKind Token :=
  if startsHex t then
    if (t.drop 2).isEmpty then .error .malformedNumber
    else integerToken (Number.ofHexDigits (t.drop 2))
  else if t.any fun c => c = '.' || c = 'e' || c = 'E' then .ok (.float (.ofNumeral false t))
  else integerToken (Number.ofDigits t)

/-- Whether a character glued to a numeral spoils it. -/
def spoilsNumeral (c : Char) : Bool := c.isAlphanum || c = '_' || c = '$'

/-- The numeral of the given length that leads a text, with what is glued to it. -/
def numeral (t : Text) (length : Nat) : Found Token :=
  let glued := ((t.drop length).takeWhile spoilsNumeral).length
  if glued = 0 then ⟨numeralToken (t.take length), length⟩
  else .error .malformedNumber (length + glued)

/-! ## Names and symbols -/

/-- The token of a name: two names are the booleans. -/
def nameToken (t : Text) : Token :=
  if t = "true".toList then .bool true
  else if t = "false".toList then .bool false
  else .name t

/-- The symbol that leads a text, the longer one where two do. -/
def symbolAt? : Text → Option Symbol
  | '=' :: '=' :: _ => some .equalEqual
  | '!' :: '=' :: _ => some .bangEqual
  | '<' :: '=' :: _ => some .lessEqual
  | '>' :: '=' :: _ => some .greaterEqual
  | '&' :: '&' :: _ => some .andAnd
  | '|' :: '|' :: _ => some .orOr
  | '+' :: _ => some .plus
  | '-' :: _ => some .minus
  | '*' :: _ => some .star
  | '/' :: _ => some .slash
  | '%' :: _ => some .percent
  | '<' :: _ => some .less
  | '>' :: _ => some .greater
  | '^' :: _ => some .caret
  | '!' :: _ => some .bang
  | '(' :: _ => some .openParen
  | ')' :: _ => some .closeParen
  | ',' :: _ => some .comma
  | _ => none

/-- The lexeme that the text `c :: rest` starts with. -/
def lexemeAt (c : Char) (rest : Text) : Found Token :=
  let length := numeralLength (c :: rest)
  if length ≠ 0 then numeral (c :: rest) length
  else if isNameStart c then
    let name := c :: rest.takeWhile isNamePart
    .ok (nameToken name) name.length
  else if c = '"' then
    let body := stringBody rest
    ⟨body.result.map .str, body.length + 1⟩
  else match symbolAt? (c :: rest) with
    | some s => .ok (.symbol s) s.text.length
    | none => .error .unexpectedCharacter 1

/-- The lexemes of a text whose first `skip` characters belong to a lexeme already taken. -/
def scan : (skip column : Nat) → Text → Except LexError (List Lexeme)
  | _, _, [] => .ok []
  | skip + 1, column, _ :: rest => scan skip (column + 1) rest
  | 0, column, c :: rest =>
    if isSkipped c then scan 0 (column + 1) rest
    else
      let found := lexemeAt c rest
      match found.result with
      | .error kind => .error ⟨kind, (c :: rest).take found.length, column⟩
      | .ok token => (scan (found.length - 1) (column + 1) rest).map (⟨token, column⟩ :: ·)

/-- The lexemes of a text. -/
def tokenize (t : Text) : Except LexError (List Lexeme) := scan 0 1 t

end SourcePreprocessor
