import SourcePreprocessor.Number.Integer

/-!
# Binary floating point numbers of 32 bits

A finite number is a sign and a count of *units*, the unit being the smallest positive number
`2^(-149)`. A count is representable when it has at most 24 significant bits and lies below the
count of `2^128`. Every operation computes an exact ratio of unit counts and rounds it once, to
the nearest representable count and to the even one of two equally near (`ofRatio`), so the library
needs no machine arithmetic and its results are facts about natural numbers.

Main statement: the rounded count is representable (`nearestUnits_dvd`), which is what lets
`ofRatio` build a number.

`truncate?` drops the fraction before it asks whether the integer fits. To ask first whether the
number lies from `-2^63` to below `2^63` comes to the same, because numbers of that size have no
fraction. There is one not-a-number: neither its sign nor its bits are ever shown.
-/

namespace SourcePreprocessor.Number

/-- The number of units in one. -/
def scale : Nat := Nat.pow 2 149

/-- The number of units in `2^128`, below which all finite numbers lie. -/
def limit : Nat := Nat.pow 2 128 * scale

/-- The natural number, negated when asked to. -/
def signed (negative : Bool) (n : Nat) : Int := if negative then -n else n

/-- The distance between neighbouring numbers of the size of `n` units. -/
def spacing (n : Nat) : Nat := Nat.pow 2 (n.log2 - 23)

/-- A count of units that some number has. -/
def Representable (units : Nat) : Prop := units < limit ∧ spacing units ∣ units

instance : DecidablePred Representable :=
  fun units => inferInstanceAs (Decidable (units < limit ∧ spacing units ∣ units))

/-- A floating point number. All not-a-numbers are one. -/
inductive Binary32 where
  | nan
  | infinite (negative : Bool)
  | finite (negative : Bool) (units : Nat) (representable : Representable units)
  deriving DecidableEq

/-- The natural number nearest to `p / q`, the even one of two. -/
def roundHalfEven (p q : Nat) : Nat :=
  if 2 * (p % q) < q then p / q
  else if q < 2 * (p % q) then p / q + 1
  else p / q + p / q % 2

/-- The count nearest to `p / q` units that has at most 24 significant bits. -/
def nearestUnits (p q : Nat) : Nat :=
  roundHalfEven p (q * spacing (p / q)) * spacing (p / q)

theorem roundHalfEven_le (p q : Nat) : roundHalfEven p q ≤ p / q + 1 := by
  unfold roundHalfEven
  split
  · omega
  · split <;> omega

theorem div_spacing_lt (n : Nat) : n / spacing n < Nat.pow 2 24 := by
  unfold spacing
  simp only [Nat.pow_eq]
  rw [Nat.div_lt_iff_lt_mul (Nat.two_pow_pos _), ← Nat.pow_add]
  exact Nat.lt_of_lt_of_le Nat.lt_log2_self (Nat.pow_le_pow_right (by decide) (by omega))

theorem log2_mul_pow_lt {k : Nat} (hpos : 0 < k) (hk : k < Nat.pow 2 24) (e : Nat) :
    (k * Nat.pow 2 e).log2 < 24 + e := by
  simp only [Nat.pow_eq] at hk ⊢
  have hne := Nat.ne_of_gt (Nat.mul_pos hpos (Nat.two_pow_pos e))
  have hlt := Nat.mul_lt_mul_of_pos_right hk (Nat.two_pow_pos e)
  rw [← Nat.pow_add] at hlt
  exact (Nat.log2_lt hne).2 hlt

/-- A multiple of a power of two with a factor of at most `2^24` has at most 24 significant bits. -/
theorem spacing_dvd_mul {k e : Nat} (h : k ≤ Nat.pow 2 24) :
    spacing (k * Nat.pow 2 e) ∣ k * Nat.pow 2 e := by
  unfold spacing
  simp only [Nat.pow_eq] at h ⊢
  rcases Nat.lt_or_eq_of_le h with hk | rfl
  · rcases Nat.eq_zero_or_pos k with rfl | hpos
    · simp
    · have hlog : (k * 2 ^ e).log2 < 24 + e := log2_mul_pow_lt hpos hk e
      exact Nat.dvd_trans (Nat.pow_dvd_pow 2 (by omega)) (Nat.dvd_mul_left _ _)
  · rw [← Nat.pow_add, Nat.log2_two_pow]
    exact Nat.pow_dvd_pow 2 (by omega)

/-- The rounded count has at most 24 significant bits. -/
theorem nearestUnits_dvd (p q : Nat) : spacing (nearestUnits p q) ∣ nearestUnits p q := by
  unfold nearestUnits
  refine spacing_dvd_mul (Nat.le_trans (roundHalfEven_le _ _) ?_)
  rw [← Nat.div_div_eq_div_mul]
  exact div_spacing_lt _

namespace Binary32

/-- The number nearest to `p / q` units with the given sign; `q` is not zero. -/
def ofRatio (negative : Bool) (p q : Nat) : Binary32 :=
  if h : nearestUnits p q < limit then .finite negative (nearestUnits p q) ⟨h, nearestUnits_dvd p q⟩
  else .infinite negative

/-- Zero with the given sign. -/
def zero (negative : Bool) : Binary32 := .finite negative 0 (by decide)

/-- The number nearest to an integer. -/
def ofInt (n : Int) : Binary32 := ofRatio (n < 0) (n.natAbs * scale) 1

/-- The signed count of units, with an infinity just beyond all numbers; none for a
not-a-number. -/
def rank? : Binary32 → Option Int
  | .nan => none
  | .infinite negative => some (signed negative limit)
  | .finite negative units _ => some (signed negative units)

/-- The order of two numbers, none when one of them is a not-a-number. Both zeros are equal. -/
def compare? (x y : Binary32) : Option Ordering := do
  return compare (← x.rank?) (← y.rank?)

def neg : Binary32 → Binary32
  | .nan => .nan
  | .infinite negative => .infinite !negative
  | .finite negative units h => .finite (!negative) units h

def abs : Binary32 → Binary32
  | .nan => .nan
  | .infinite _ => .infinite false
  | .finite _ units h => .finite false units h

/-- The sum. Opposite numbers add to positive zero, two negative zeros to negative zero. -/
def add : Binary32 → Binary32 → Binary32
  | .nan, _ => .nan
  | _, .nan => .nan
  | .infinite s, .infinite t => if s = t then .infinite s else .nan
  | .infinite s, .finite .. => .infinite s
  | .finite .., .infinite t => .infinite t
  | .finite s u _, .finite t v _ =>
    let sum := signed s u + signed t v
    if sum = 0 then zero (s && t) else ofRatio (sum < 0) sum.natAbs 1

def sub (x y : Binary32) : Binary32 := add x y.neg

def mul : Binary32 → Binary32 → Binary32
  | .nan, _ => .nan
  | _, .nan => .nan
  | .infinite s, .infinite t => .infinite (s ^^ t)
  | .infinite s, .finite t v _ => if v = 0 then .nan else .infinite (s ^^ t)
  | .finite s u _, .infinite t => if u = 0 then .nan else .infinite (s ^^ t)
  | .finite s u _, .finite t v _ => ofRatio (s ^^ t) (u * v) scale

def div : Binary32 → Binary32 → Binary32
  | .nan, _ => .nan
  | _, .nan => .nan
  | .infinite _, .infinite _ => .nan
  | .infinite s, .finite t _ _ => .infinite (s ^^ t)
  | .finite s _ _, .infinite t => zero (s ^^ t)
  | .finite s u _, .finite t v _ =>
    if v = 0 then if u = 0 then .nan else .infinite (s ^^ t)
    else ofRatio (s ^^ t) (u * scale) v

/-- The remainder of the quotient truncated toward zero, with the sign of the dividend. -/
def rem : Binary32 → Binary32 → Binary32
  | .nan, _ => .nan
  | _, .nan => .nan
  | .infinite _, _ => .nan
  | .finite s u h, .infinite _ => .finite s u h
  | .finite s u _, .finite _ v _ => if v = 0 then .nan else ofRatio s (u % v) 1

/-- The nearest integer, the one further from zero of two. -/
def round : Binary32 → Binary32
  | .nan => .nan
  | .infinite s => .infinite s
  | .finite s u _ => ofRatio s ((u + scale / 2) / scale * scale) 1

/-- The integer that is left when the fraction is dropped, if there is one of 64 bits. -/
def truncate? : Binary32 → Option Int64
  | .nan => none
  | .infinite _ => none
  | .finite s u _ => narrow? (signed s (u / scale))

end Binary32

end SourcePreprocessor.Number
