import SourcePreprocessor.Number.Integer
import SourcePreprocessor.Text.Blank

/-!
# Numerals

Digits as text and text as digits, in base ten and sixteen. Reading a signed integer distinguishes
text that is no numeral from a numeral that does not fit, and reports whichever a reader going from
left to right meets first.
-/

namespace SourcePreprocessor.Number

/-- The decimal numeral of a natural number. -/
def decimal (n : Nat) : Text := Nat.toDigits 10 n

/-- The decimal numeral of an integer. -/
def signedDecimal : Int → Text
  | .ofNat n => decimal n
  | .negSucc n => '-' :: decimal (n + 1)

/-- The number that decimal digits denote. -/
def ofDigits (t : Text) : Nat := Nat.ofDigitChars 10 t 0

/-- The value of a hexadecimal digit of either case. -/
def hexDigit? (c : Char) : Option Nat :=
  if c.isDigit then some (c.toNat - '0'.toNat)
  else if 'a' ≤ c ∧ c ≤ 'f' then some (c.toNat - 'a'.toNat + 10)
  else if 'A' ≤ c ∧ c ≤ 'F' then some (c.toNat - 'A'.toNat + 10)
  else none

/-- Whether a character is a hexadecimal digit of either case. -/
def isHexDigit (c : Char) : Bool := (hexDigit? c).isSome

/-- The number that hexadecimal digits denote. -/
def ofHexDigits (t : Text) : Nat := t.foldl (fun n c => 16 * n + (hexDigit? c).getD 0) 0

/-- At least four hexadecimal digits, letters in lower case. -/
def hex4 (n : Nat) : Text := (Nat.toDigits 16 n).leftpad 4 '0'

/-- At least four hexadecimal digits, letters in upper case. -/
def upperHex4 (n : Nat) : Text := (hex4 n).map Char.toUpper

/-- Why a text is not read as an integer. -/
inductive NumeralError where
  /-- The text is no numeral. -/
  | malformed
  /-- The numeral's value does not fit. -/
  | outOfRange
  deriving DecidableEq, Repr

/-- Appends digits to a number that is built up with the given sign. -/
def readDigits (negative : Bool) : (value : Int64) → Text → Except NumeralError Int64
  | value, [] => .ok value
  | value, c :: t =>
    if c.isDigit then
      let digit : Int := c.toNat - '0'.toNat
      match narrow? (10 * value.toInt + if negative then -digit else digit) with
      | some next => readDigits negative next t
      | none => .error .outOfRange
    else .error .malformed

/-- Reads an optional sign and at least one digit. -/
def readInteger : Text → Except NumeralError Int64
  | [] => .error .malformed
  | ['+'] => .error .malformed
  | ['-'] => .error .malformed
  | '+' :: digits => readDigits false 0 digits
  | '-' :: digits => readDigits true 0 digits
  | digits => readDigits false 0 digits

theorem ofDigits_decimal (n : Nat) : ofDigits (decimal n) = n :=
  Nat.ofDigitChars_toDigits (by decide) (by decide)

theorem isDigit_of_mem_decimal {n : Nat} {c : Char} (h : c ∈ decimal n) : c.isDigit = true :=
  Nat.isDigit_of_mem_toDigits (by decide) (by decide) h

end SourcePreprocessor.Number
