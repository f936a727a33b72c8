import Mathlib.Algebra.Order.Field.Basic
import Mathlib.Data.Nat.Dist
import Mathlib.Data.Rat.Cast.Order
import Mathlib.Tactic.FieldSimp
import Mathlib.Tactic.Linarith
import Mathlib.Tactic.Ring
import SourcePreprocessor.Number.Binary32

/-!
# Rounding to the nearest number

`ofRatio` rounds once, among the multiples of one spacing. That the result is nearest among all
numbers (`IsNearest`) has two parts. Among the multiples of the spacing the rounded quotient is
nearest by division with remainder. Numbers that are no multiples of it are smaller than all numbers
of the same size as the ratio, hence further away than the smallest of these.

> `roundHalfEven_nearest`: a rounded quotient is nearest to the exact one, and even in a tie;
> `nearestUnits_nearest`: the rounded count is nearest among all representable counts;
> `ofRatio_isNearest`: and with signs among all numbers, when it is in range;
> `IsNearest.mono`: rounding to nearest keeps the order.
-/

namespace SourcePreprocessor.Number

/-! ## Quotients -/

/-- A rounded quotient is off by at most a half, and it is even when it is off by a half. -/
theorem roundHalfEven_error {q : Nat} (hq : 0 < q) (p : Nat) :
    2 * Nat.dist (roundHalfEven p q * q) p ≤ q ∧
      (2 * Nat.dist (roundHalfEven p q * q) p = q → 2 ∣ roundHalfEven p q) := by
  have hdivision : p / q * q + p % q = p := Nat.div_add_mod' p q
  have hless : p % q < q := Nat.mod_lt p hq
  unfold roundHalfEven Nat.dist
  split
  · omega
  · split
    · rw [Nat.add_mul]
      omega
    · rcases Nat.mod_two_eq_zero_or_one (p / q) with heven | hodd
      · rw [heven, Nat.add_zero]
        omega
      · rw [hodd, Nat.add_mul]
        omega

/-- A rounded quotient is nearest to the exact one, and it is even in a tie. -/
theorem roundHalfEven_nearest {q : Nat} (hq : 0 < q) (p k : Nat) :
    Nat.dist (roundHalfEven p q * q) p ≤ Nat.dist (k * q) p ∧
      (Nat.dist (roundHalfEven p q * q) p = Nat.dist (k * q) p →
        k = roundHalfEven p q ∨ 2 ∣ roundHalfEven p q) := by
  obtain ⟨herror, heven⟩ := roundHalfEven_error hq p
  generalize roundHalfEven p q = r at *
  unfold Nat.dist at *
  rcases Nat.lt_trichotomy k r with hlt | rfl | hlt
  · have hstep : (k + 1) * q ≤ r * q := Nat.mul_le_mul_right q hlt
    rw [Nat.add_mul] at hstep
    omega
  · exact ⟨Nat.le_refl _, fun _ => .inl rfl⟩
  · have hstep : (r + 1) * q ≤ k * q := Nat.mul_le_mul_right q hlt
    rw [Nat.add_mul] at hstep
    omega

/-! ## Counts of units -/

theorem spacing_pos (n : Nat) : 0 < spacing n := Nat.pow_pos (by decide)

theorem roundHalfEven_spacing_le (p q : Nat) :
    roundHalfEven p (q * spacing (p / q)) ≤ Nat.pow 2 24 := by
  refine Nat.le_trans (roundHalfEven_le _ _) ?_
  rw [← Nat.div_div_eq_div_mul]
  exact div_spacing_lt _

/-- A multiple of a power of two by an even factor of at most `2^24` has an even significand. -/
theorem two_mul_spacing_dvd_mul {k e : Nat} (h : k ≤ Nat.pow 2 24) (heven : 2 ∣ k) :
    2 * spacing (k * Nat.pow 2 e) ∣ k * Nat.pow 2 e := by
  unfold spacing
  simp only [Nat.pow_eq] at h ⊢
  rw [← Nat.pow_succ']
  rcases Nat.lt_or_eq_of_le h with hk | rfl
  · rcases Nat.eq_zero_or_pos k with rfl | hpos
    · simp
    · have hlog : (k * 2 ^ e).log2 < 24 + e := log2_mul_pow_lt hpos hk e
      have hfactor : 2 ^ (e + 1) ∣ k * 2 ^ e := by
        rw [Nat.pow_succ']
        exact Nat.mul_dvd_mul_right heven _
      exact Nat.dvd_trans (Nat.pow_dvd_pow 2 (by omega)) hfactor
  · rw [← Nat.pow_add, Nat.log2_two_pow]
    exact Nat.pow_dvd_pow 2 (by omega)

/-- A count that is no multiple of the spacing of a larger size is below all counts of that size. -/
theorem lt_of_not_spacing_dvd {n units : Nat} (hunits : spacing units ∣ units)
    (h : ¬ spacing n ∣ units) :
    units < Nat.pow 2 23 * spacing n ∧ Nat.pow 2 23 * spacing n ≤ n := by
  have hsize : units.log2 < n.log2 := by
    refine Nat.lt_of_not_le fun hle => h (Nat.dvd_trans ?_ hunits)
    exact Nat.pow_dvd_pow 2 (Nat.sub_le_sub_right hle 23)
  have hlarge : 23 < n.log2 := by
    refine Nat.lt_of_not_le fun hle => h ?_
    have hone : spacing n = 1 := by
      unfold spacing
      rw [Nat.sub_eq_zero_of_le hle, Nat.pow_eq, Nat.pow_zero]
    rw [hone]
    exact Nat.one_dvd _
  have hpower : Nat.pow 2 23 * spacing n = 2 ^ n.log2 := by
    unfold spacing
    simp only [Nat.pow_eq]
    rw [← Nat.pow_add, Nat.add_sub_cancel' (Nat.le_of_lt hlarge)]
  rw [hpower]
  refine ⟨Nat.lt_of_lt_of_le Nat.lt_log2_self (Nat.pow_le_pow_right (by decide) hsize), ?_⟩
  refine Nat.log2_self_le ?_
  rintro rfl
  exact absurd hlarge (by decide)

/-- The rounded count is nearest to the ratio among all counts with at most 24 significant bits, and
its significand is even in a tie. -/
theorem nearestUnits_nearest {q : Nat} (hq : 0 < q) (p : Nat) {units : Nat}
    (hunits : spacing units ∣ units) :
    Nat.dist (nearestUnits p q * q) p ≤ Nat.dist (units * q) p ∧
      (Nat.dist (nearestUnits p q * q) p = Nat.dist (units * q) p →
        units = nearestUnits p q ∨ 2 * spacing (nearestUnits p q) ∣ nearestUnits p q) := by
  have hpos : 0 < q * spacing (p / q) := Nat.mul_pos hq (spacing_pos _)
  have hcount (k : Nat) : k * spacing (p / q) * q = k * (q * spacing (p / q)) := by
    rw [Nat.mul_assoc, Nat.mul_comm (spacing _)]
  have hrounded (k : Nat) := roundHalfEven_nearest hpos p k
  unfold nearestUnits
  rw [hcount]
  by_cases hmultiple : spacing (p / q) ∣ units
  · obtain ⟨k, rfl⟩ := hmultiple
    rw [Nat.mul_comm (spacing _) k, hcount]
    refine ⟨(hrounded k).1, fun htie => ?_⟩
    rcases (hrounded k).2 htie with rfl | heven
    · exact .inl rfl
    · exact .inr (two_mul_spacing_dvd_mul (roundHalfEven_spacing_le p q) heven)
  · obtain ⟨hbelow, hreached⟩ := lt_of_not_spacing_dvd hunits hmultiple
    have hsmall : units * q < Nat.pow 2 23 * (q * spacing (p / q)) := by
      rw [← hcount]
      exact Nat.mul_lt_mul_of_pos_right hbelow hq
    have hlarge : Nat.pow 2 23 * (q * spacing (p / q)) ≤ p := by
      rw [← hcount]
      exact Nat.le_trans (Nat.mul_le_mul_right q hreached) (Nat.div_mul_le_self p q)
    -- the smallest count of the size of the ratio is closer already
    have hcloser := (hrounded (Nat.pow 2 23)).1
    rw [Nat.dist_eq_sub_of_le hlarge] at hcloser
    rw [Nat.dist_eq_sub_of_le (Nat.le_trans (Nat.le_of_lt hsmall) hlarge)]
    omega

/-! ## Numbers -/

theorem scale_pos : 0 < scale := Nat.pow_pos (by decide)

@[simp] theorem signed_false (n : Nat) : signed false n = n := rfl

@[simp] theorem signed_true (n : Nat) : signed true n = -(n : ℤ) := rfl

namespace Binary32

/-- The exact value of a finite number. -/
def value? : Binary32 → Option ℚ
  | .finite negative units _ => some (signed negative units / scale)
  | _ => none

/-- Whether the last bit of the significand is zero. -/
def IsEven : Binary32 → Prop
  | .finite _ units _ => 2 * spacing units ∣ units
  | _ => False

/-- The number has the given value, no number is nearer to `r`, and of two nearest ones it is the
even one. -/
structure IsNearest (r : ℚ) (x : Binary32) (v : ℚ) : Prop where
  value : x.value? = some v
  nearest : ∀ (y : Binary32) (w : ℚ), y.value? = some w → |v - r| ≤ |w - r|
  even : ∀ (y : Binary32) (w : ℚ), y.value? = some w → |v - r| = |w - r| → w = v ∨ x.IsEven

/-- The distance between a signed count and a signed ratio, as a multiple of the ratio's unit. -/
def gap (s : Bool) (p q : Nat) (t : Bool) (units : Nat) : Nat :=
  if t = s then Nat.dist (units * q) p else units * q + p

theorem cast_dist (m n : Nat) : (Nat.dist m n : ℚ) = |(m : ℚ) - n| := by
  rcases Nat.le_total m n with h | h
  · rw [Nat.dist_eq_sub_of_le h, Nat.cast_sub h, abs_sub_comm, abs_of_nonneg]
    exact sub_nonneg.2 (Nat.cast_le.2 h)
  · rw [Nat.dist_eq_sub_of_le_right h, Nat.cast_sub h, abs_of_nonneg]
    exact sub_nonneg.2 (Nat.cast_le.2 h)

theorem abs_sub_eq_gap {q : Nat} (hq : 0 < q) (s t : Bool) (p units : Nat) :
    |(signed t units : ℚ) / scale - signed s p / (q * scale)| =
      gap s p q t units / (q * scale) := by
  have hq' : (0 : ℚ) < q := Nat.cast_pos.2 hq
  have hscale : (0 : ℚ) < scale := Nat.cast_pos.2 scale_pos
  have hcommon : (signed t units : ℚ) / scale - signed s p / (q * scale) =
      (signed t units * q - signed s p) / (q * scale) := by
    field_simp
  have hnum : |(signed t units : ℚ) * q - signed s p| = gap s p q t units := by
    unfold gap
    split
    · next heq =>
      subst heq
      rw [cast_dist, Nat.cast_mul]
      cases t with
      | false => simp
      | true =>
        rw [← abs_neg]
        simp only [signed_true, Int.cast_neg, Int.cast_natCast]
        ring_nf
    · next hne =>
      have hsum : (0 : ℚ) ≤ units * q + p := by positivity
      rw [Nat.cast_add, Nat.cast_mul, ← abs_of_nonneg hsum]
      cases t with
      | false =>
        cases s with
        | false => exact absurd rfl hne
        | true => simp
      | true =>
        cases s with
        | true => exact absurd rfl hne
        | false =>
          rw [← abs_neg]
          simp only [signed_true, signed_false, Int.cast_neg, Int.cast_natCast]
          ring_nf
  rw [hcommon, abs_div, hnum, abs_of_pos (mul_pos hq' hscale)]

/-- No signed count has a smaller gap to a signed ratio than the rounded one, and this is even when
another one has the same gap. -/
theorem gap_nearest {q : Nat} (hq : 0 < q) (s t : Bool) (p : Nat) {units : Nat}
    (hunits : spacing units ∣ units) :
    gap s p q s (nearestUnits p q) ≤ gap s p q t units ∧
      (gap s p q s (nearestUnits p q) = gap s p q t units →
        signed t units = signed s (nearestUnits p q) ∨
          2 * spacing (nearestUnits p q) ∣ nearestUnits p q) := by
  have hcount := nearestUnits_nearest hq p hunits
  have hzero := nearestUnits_nearest hq p (Nat.dvd_zero (spacing 0))
  rw [Nat.zero_mul, Nat.dist_eq_sub_of_le (Nat.zero_le p), Nat.sub_zero] at hzero
  unfold gap
  rw [if_pos rfl]
  split
  · next heq =>
    subst heq
    exact ⟨hcount.1, fun htie => (hcount.2 htie).imp (congrArg (signed t)) id⟩
  · next hne =>
    -- zero is at least as near as what lies beyond it
    refine ⟨by omega, fun htie => ?_⟩
    have hnone : units * q = 0 := by omega
    obtain rfl : units = 0 := (Nat.mul_eq_zero.1 hnone).resolve_right (Nat.ne_of_gt hq)
    refine (hzero.2 (by omega)).imp (fun hnearest => ?_) id
    rw [← hnearest]
    cases t <;> cases s <;> rfl

theorem exists_finite {x : Binary32} {v : ℚ} (h : x.value? = some v) :
    ∃ s units hunits, x = .finite s units hunits ∧ v = signed s units / scale := by
  cases x with
  | nan => nomatch h
  | infinite _ => nomatch h
  | finite s units hunits => exact ⟨s, units, hunits, rfl, (Option.some.inj h).symm⟩

/-- **Rounding is to the nearest number, ties to even.** -/
theorem ofRatio_isNearest (negative : Bool) {p q : Nat} (hq : 0 < q)
    (hfit : nearestUnits p q < limit) :
    IsNearest (signed negative p / (q * scale)) (ofRatio negative p q)
      (signed negative (nearestUnits p q) / scale) := by
  have hunit : (0 : ℚ) < q * scale :=
    mul_pos (Nat.cast_pos.2 hq) (Nat.cast_pos.2 scale_pos)
  have hrounded : ofRatio negative p q =
      .finite negative (nearestUnits p q) ⟨hfit, nearestUnits_dvd p q⟩ := by
    unfold ofRatio
    rw [dif_pos hfit]
  rw [hrounded]
  refine ⟨rfl, fun y w hw => ?_, fun y w hw htie => ?_⟩
  · obtain ⟨t, units, hunits, rfl, rfl⟩ := exists_finite hw
    rw [abs_sub_eq_gap hq, abs_sub_eq_gap hq]
    exact div_le_div_of_nonneg_right (Nat.cast_le.2 (gap_nearest hq negative t p hunits.2).1)
      (le_of_lt hunit)
  · obtain ⟨t, units, hunits, rfl, rfl⟩ := exists_finite hw
    rw [abs_sub_eq_gap hq, abs_sub_eq_gap hq, div_left_inj' (ne_of_gt hunit), Nat.cast_inj] at htie
    exact ((gap_nearest hq negative t p hunits.2).2 htie).imp (fun h => by rw [h]) id

/-- Numbers nearest to two ratios are in the order of these. -/
theorem IsNearest.mono {r r' v w : ℚ} {x y : Binary32} (hx : IsNearest r x v)
    (hy : IsNearest r' y w) (h : r < r') : v ≤ w := by
  refine le_of_not_gt fun hlt => ?_
  have hfirst := hx.nearest y w hy.value
  have hsecond := hy.nearest x v hx.value
  -- both ratios would have to be on the wrong side of the middle between the numbers
  have hhigh : v + w ≤ 2 * r := by
    rcases abs_cases (v - r) with hv | hv <;> rcases abs_cases (w - r) with hw | hw <;> linarith
  have hlow : 2 * r' ≤ v + w := by
    rcases abs_cases (v - r') with hv | hv <;> rcases abs_cases (w - r') with hw | hw <;> linarith
  linarith

end Binary32

end SourcePreprocessor.Number
