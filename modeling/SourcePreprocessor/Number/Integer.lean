import SourcePreprocessor.Text.Basic

/-!
# Signed integers of 64 bits

Integer arithmetic is exact or fails. Every operation computes over the unbounded integers and then
asks whether the result fits; nothing wraps.

> `narrow? n = some m` exactly when `m.toInt = n`.

Division truncates toward zero and the remainder has the sign of the dividend. A remainder is only
defined where its quotient fits, so the smallest integer has no remainder by minus one.
-/

namespace SourcePreprocessor.Number

/-- The 64 bit integer with the given value, if there is one. -/
def narrow? (n : Int) : Option Int64 :=
  if Int64.minValue.toInt ≤ n ∧ n ≤ Int64.maxValue.toInt then some (Int64.ofInt n) else none

def add? (a b : Int64) : Option Int64 := narrow? (a.toInt + b.toInt)

def sub? (a b : Int64) : Option Int64 := narrow? (a.toInt - b.toInt)

def mul? (a b : Int64) : Option Int64 := narrow? (a.toInt * b.toInt)

def neg? (a : Int64) : Option Int64 := narrow? (-a.toInt)

def abs? (a : Int64) : Option Int64 := narrow? a.toInt.natAbs

/-- The quotient rounded toward zero, for a divisor other than zero. -/
def div? (a b : Int64) : Option Int64 := narrow? (a.toInt.tdiv b.toInt)

/-- The remainder of the division rounded toward zero, for a divisor other than zero. -/
def rem? (a b : Int64) : Option Int64 := do
  let _ ← div? a b
  narrow? (a.toInt.tmod b.toInt)

/-- An integer between the smallest and the largest is its own 64 bit integer. -/
theorem toInt_ofInt {n : Int} (h : Int64.minValue.toInt ≤ n ∧ n ≤ Int64.maxValue.toInt) :
    (Int64.ofInt n).toInt = n := by
  rw [Int64.toInt_minValue, Int64.toInt_maxValue] at h
  exact Int64.toInt_ofInt_of_le h.1 (by omega)

theorem narrow?_eq_some_iff {n : Int} {m : Int64} : narrow? n = some m ↔ m.toInt = n := by
  unfold narrow?
  split
  · next h => rw [Option.some.injEq, ← Int64.toInt_inj, toInt_ofInt h, eq_comm]
  · next h =>
    simp only [reduceCtorEq, false_iff]
    rintro rfl
    exact h ⟨Int64.minValue_le_toInt m, Int64.toInt_le m⟩

theorem narrow?_toInt (m : Int64) : narrow? m.toInt = some m := narrow?_eq_some_iff.2 rfl

theorem narrow?_eq_none_iff {n : Int} :
    narrow? n = none ↔ n < Int64.minValue.toInt ∨ Int64.maxValue.toInt < n := by
  unfold narrow?
  split
  · next h =>
    simp only [reduceCtorEq, false_iff]
    omega
  · next h =>
    simp only [true_iff]
    omega

end SourcePreprocessor.Number
