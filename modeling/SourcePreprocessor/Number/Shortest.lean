import SourcePreprocessor.Number.Binary32
import SourcePreprocessor.Number.Numeral

/-!
# Floating point numbers as decimal text

A decimal numeral reads as the number nearest to it. A number is written with the fewest digits that
read back as it: on decimal grids of growing fineness the two neighbours of the number are tried,
and the first grid with a neighbour that reads back gives the digits. Of two such neighbours the
nearer is written, the larger one when both are equally near. The digits are always written out
positionally.

The grids are tried one after the other. Faster ways to the same digits look them up or estimate
where to start; which digits are the fewest that read back does not depend on the way.

Main statement: a decimal that a grid offers reads back (`readsAs_of_onGrid?`).
-/

namespace SourcePreprocessor.Number

/-- The power of ten with the given exponent, one when that is negative. -/
def tenPower (exponent : Int) : Nat := Nat.pow 10 exponent.toNat

/-- The decimal fraction `digits * 10^(-places)`. -/
structure Decimal where
  digits : Nat
  places : Int
  deriving DecidableEq

namespace Decimal

/-- The number nearest to a decimal with the given sign. Decimals of `10^39` and more are beyond all
numbers and those below `10^(-46)` are nearest to zero, so no large power is ever formed. -/
def toBinary32 (negative : Bool) (d : Decimal) : Binary32 :=
  let width : Int := (decimal d.digits).length - d.places
  if d.digits = 0 then .zero negative
  else if 40 ≤ width then .infinite negative
  else if width ≤ -46 then .zero negative
  else .ofRatio negative (d.digits * tenPower (-d.places) * scale) (tenPower d.places)

/-- The digits with a point among them, as many zeros added as that takes. -/
def text (d : Decimal) : Text :=
  if d.places ≤ 0 then decimal (d.digits * tenPower (-d.places))
  else
    let all := (decimal d.digits).leftpad (d.places.toNat + 1) '0'
    let whole := all.length - d.places.toNat
    all.take whole ++ '.' :: all.drop whole

/-- Whether the decimal reads as the number of the given count of units. -/
def ReadsAs (d : Decimal) (units : Nat) : Prop := (d.toBinary32 false).rank? = some units

instance (d : Decimal) (units : Nat) : Decidable (d.ReadsAs units) :=
  inferInstanceAs (Decidable (_ = _))

/-- The neighbour of a count of units that reads back on the grid of the given places, if one
does. -/
def onGrid? (units : Nat) (places : Int) : Option Decimal :=
  let numerator := units * tenPower places
  let denominator := scale * tenPower (-places)
  let low : Decimal := ⟨numerator / denominator, places⟩
  let high : Decimal := ⟨numerator / denominator + 1, places⟩
  let lowIsNearer := 2 * (numerator % denominator) < denominator
  if low.ReadsAs units ∧ (lowIsNearer ∨ ¬ high.ReadsAs units) then some low
  else if high.ReadsAs units then some high
  else none

/-- The decimal of the coarsest grid, from the given one on, that reads back. The grid of 149 places
holds every number, so the search ends there at the latest. -/
def shortestFrom (units : Nat) : (grids : Nat) → (places : Int) → Decimal
  | 0, _ => ⟨units * Nat.pow 5 149, 149⟩
  | grids + 1, places =>
    match onGrid? units places with
    | some d => d
    | none => shortestFrom units grids (places + 1)

/-- The decimal with the fewest digits that reads as the given count of units. -/
def shortest (units : Nat) : Decimal :=
  if units = 0 then ⟨0, 0⟩ else shortestFrom units 188 (-38)

theorem readsAs_of_onGrid? {units : Nat} {places : Int} {d : Decimal}
    (h : onGrid? units places = some d) : d.ReadsAs units := by
  unfold onGrid? at h
  simp only at h
  split at h
  · next hc => rw [Option.some.injEq] at h; exact h ▸ hc.1
  · split at h
    · next hc => rw [Option.some.injEq] at h; exact h ▸ hc
    · simp at h

end Decimal

/-- Reads the exponent of a numeral: `e`, an optional sign and digits. -/
def readExponent : Text → Int
  | _ :: '-' :: digits => -ofDigits digits
  | _ :: '+' :: digits => ofDigits digits
  | _ :: digits => ofDigits digits
  | [] => 0

namespace Binary32

/-- The number nearest to a numeral: digits, an optional fraction, an optional exponent. -/
def ofNumeral (negative : Bool) (t : Text) : Binary32 :=
  let whole := t.takeWhile Char.isDigit
  let (fraction, exponent) := match t.dropWhile Char.isDigit with
    | '.' :: rest => (rest.takeWhile Char.isDigit, rest.dropWhile Char.isDigit)
    | rest => ([], rest)
  Decimal.toBinary32 negative
    ⟨ofDigits (whole ++ fraction), fraction.length - readExponent exponent⟩

/-- The number as text. -/
def text : Binary32 → Text
  | .nan => "NaN".toList
  | .infinite negative => if negative then "-inf".toList else "inf".toList
  | .finite negative units _ =>
    let digits := (Decimal.shortest units).text
    if negative then '-' :: digits else digits

/-- The number that a text written by `text`, or any signed numeral, denotes. -/
def ofText (t : Text) : Binary32 :=
  if t = "NaN".toList then .nan
  else if t = "inf".toList then .infinite false
  else if t = "-inf".toList then .infinite true
  else match t with
    | '-' :: digits => ofNumeral true digits
    | digits => ofNumeral false digits

end Binary32

end SourcePreprocessor.Number
