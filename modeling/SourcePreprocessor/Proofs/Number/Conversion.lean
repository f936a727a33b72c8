import Mathlib.Data.Rat.Floor
import SourcePreprocessor.Expr.Error
import SourcePreprocessor.Proofs.Except
import SourcePreprocessor.Proofs.Number.Nearest
import SourcePreprocessor.Proofs.Number.RoundTrip

/-!
# Integers as floating point numbers and back

An integer of 64 bits becomes the nearest floating point number, which always exists, and a floating
point number becomes an integer by losing its fraction, if the result has 64 bits. The way back can
fail for an integer: `2^63` is a floating point number but no integer, and the integers from
`2^63 - 2^38` on are nearest to it. At the other end `-2^63` is both.

> `ofInt_isNearest`: an integer is rounded to nearest, ties to even;
> `truncate?_eq_some_iff`: the fraction is dropped exactly where the number is in the range of the
> integers;
> `integer_conversions`: these, the order, and the integers that survive the way there and back.
-/

namespace SourcePreprocessor

namespace Number.Binary32

/-- The integer that is left of a number when its fraction is dropped. -/
def towardZero (r : ℚ) : ℤ := if 0 ≤ r then ⌊r⌋ else ⌈r⌉

/-! ## From integers -/

theorem signed_natAbs (n : ℤ) : signed (n < 0) n.natAbs = n := by
  unfold signed
  by_cases h : n < 0
  · rw [if_pos (decide_eq_true h)]
    omega
  · rw [if_neg (by simpa using h)]
    omega

theorem signed_mul (s : Bool) (m n : Nat) : signed s (m * n) = signed s m * n := by
  cases s with
  | false => rfl
  | true => simp [signed]

theorem nearestUnits_lt_limit {n : Nat} (h : n ≤ 2 ^ 63) : nearestUnits (n * scale) 1 < limit := by
  have hzero := (nearestUnits_nearest Nat.one_pos (n * scale) (Nat.dvd_zero (spacing 0))).1
  have hsize : n * scale ≤ 2 ^ 63 * scale := Nat.mul_le_mul_right scale h
  have hpos := scale_pos
  have hlimit : limit = 2 ^ 128 * scale := rfl
  unfold Nat.dist at hzero
  omega

/-- An integer is rounded to the nearest number, ties to even. -/
theorem ofInt_isNearest {n : ℤ} (h : n.natAbs ≤ 2 ^ 63) :
    IsNearest n (ofInt n) (signed (n < 0) (nearestUnits (n.natAbs * scale) 1) / scale) := by
  have hnearest := ofRatio_isNearest (n < 0) Nat.one_pos (nearestUnits_lt_limit h)
  have hvalue : (signed (n < 0) (n.natAbs * scale) / (1 * scale) : ℚ) = n := by
    have hscale : (scale : ℚ) ≠ 0 := Nat.cast_ne_zero.2 (Nat.ne_of_gt scale_pos)
    rw [signed_mul, signed_natAbs, Int.cast_mul, Int.cast_natCast, one_mul,
      mul_div_cancel_right₀ _ hscale]
  rw [Nat.cast_one, hvalue] at hnearest
  exact hnearest

theorem natAbs_toInt_le (n : Int64) : n.toInt.natAbs ≤ 2 ^ 63 := by
  have hlow := Int64.le_toInt n
  have hhigh := Int64.toInt_lt n
  omega

theorem ofInt_mono {m n : ℤ} (hm : m.natAbs ≤ 2 ^ 63) (hn : n.natAbs ≤ 2 ^ 63) (h : m ≤ n)
    {v w : ℚ} (hv : (ofInt m).value? = some v) (hw : (ofInt n).value? = some w) : v ≤ w := by
  have hfirst := ofInt_isNearest hm
  have hsecond := ofInt_isNearest hn
  obtain rfl := Option.some.inj (hfirst.value.symm.trans hv)
  obtain rfl := Option.some.inj (hsecond.value.symm.trans hw)
  rcases Int.lt_or_eq_of_le h with hlt | rfl
  · exact hfirst.mono hsecond (Int.cast_lt.2 hlt)
  · exact le_rfl

/-- Integers of 24 bits are numbers. -/
theorem ofInt_of_natAbs_le {n : ℤ} (h : n.natAbs ≤ 2 ^ 24) :
    ∃ hunits, ofInt n = .finite (n < 0) (n.natAbs * scale) hunits := by
  have hrange : n.natAbs * scale < limit :=
    Nat.mul_lt_mul_of_pos_right (Nat.lt_of_le_of_lt h (by decide)) scale_pos
  have hunits : Representable (n.natAbs * scale) := ⟨hrange, spacing_dvd_mul h⟩
  have hexact := ofRatio_exact hunits Nat.one_pos (n < 0)
  rw [Nat.mul_one] at hexact
  exact ⟨hunits, hexact⟩

/-! ## To integers -/

/-- From `2^23` on all numbers are integers. -/
theorem scale_dvd {units : Nat} (h : spacing units ∣ units) (hlarge : 2 ^ 23 ≤ units / scale) :
    scale ∣ units := by
  have hunits : 2 ^ 172 ≤ units := (Nat.le_div_iff_mul_le scale_pos).1 hlarge
  have hsize : 172 ≤ units.log2 :=
    (Nat.le_log2 (Nat.ne_of_gt (Nat.lt_of_lt_of_le (by decide) hunits))).2 hunits
  exact Nat.dvd_trans (Nat.pow_dvd_pow 2 (Nat.sub_le_sub_right hsize 23)) h

theorem div_scale_le_iff {units n : Nat} (h : spacing units ∣ units) (hn : 2 ^ 23 ≤ n) :
    units / scale ≤ n ↔ units ≤ n * scale := by
  refine ⟨fun hle => ?_, fun hle => Nat.div_le_of_le_mul (Nat.mul_comm n scale ▸ hle)⟩
  rcases Nat.lt_or_eq_of_le hle with hlt | rfl
  · exact Nat.le_of_lt ((Nat.div_lt_iff_lt_mul scale_pos).1 hlt)
  · exact Nat.le_of_eq (Nat.div_mul_cancel (scale_dvd h hn)).symm

theorem towardZero_signed (s : Bool) (units : Nat) :
    towardZero (signed s units / scale) = signed s (units / scale) := by
  have hfloor : ⌊(units : ℚ) / scale⌋ = (units / scale : Nat) := by
    rw [Rat.floor_natCast_div_natCast, Int.natCast_ediv]
  have hnonneg : (0 : ℚ) ≤ units / scale := by positivity
  unfold towardZero
  cases s with
  | false => rw [signed_false, signed_false, Int.cast_natCast, if_pos hnonneg, hfloor]
  | true =>
    rw [signed_true, signed_true, Int.cast_neg, Int.cast_natCast, neg_div, ← hfloor]
    split
    · next hle =>
      have hzero : (units : ℚ) / scale = 0 := by linarith
      rw [hzero, neg_zero, Int.floor_zero, neg_zero]
    · exact Int.ceil_neg

/-- A number is in the range of the integers exactly when it is without its fraction. -/
theorem inRange_iff {x : Binary32} {v : ℚ} (h : x.value? = some v) :
    -2 ^ 63 ≤ v ∧ v < 2 ^ 63 ↔ -2 ^ 63 ≤ towardZero v ∧ towardZero v < 2 ^ 63 := by
  obtain ⟨s, units, hunits, rfl, rfl⟩ := exists_finite h
  have hscale : (0 : ℚ) < scale := Nat.cast_pos.2 scale_pos
  have hlow : units / scale ≤ 2 ^ 63 ↔ units ≤ 2 ^ 63 * scale :=
    div_scale_le_iff hunits.2 (by decide)
  have hhigh : units / scale < 2 ^ 63 ↔ units < 2 ^ 63 * scale :=
    Nat.div_lt_iff_lt_mul scale_pos
  have hcounts : (-2 ^ 63 * scale : ℚ) ≤ signed s units ∧ (signed s units : ℚ) < 2 ^ 63 * scale ↔
      -2 ^ 63 * (scale : ℤ) ≤ signed s units ∧ signed s units < 2 ^ 63 * (scale : ℤ) := by
    norm_cast
  rw [towardZero_signed, le_div_iff₀ hscale, div_lt_iff₀ hscale, hcounts]
  clear hcounts
  generalize units / scale = whole at *
  cases s with
  | false =>
    rw [signed_false, signed_false]
    omega
  | true =>
    have hpos := scale_pos
    rw [signed_true, signed_true]
    omega

theorem truncate?_eq_narrow? {x : Binary32} {v : ℚ} (h : x.value? = some v) :
    x.truncate? = narrow? (towardZero v) := by
  obtain ⟨s, units, hunits, rfl, rfl⟩ := exists_finite h
  rw [towardZero_signed]
  rfl

/-- The fraction can be dropped exactly where the number is in the range of the integers. -/
theorem truncate?_eq_some_iff {x : Binary32} {v : ℚ} (h : x.value? = some v) {n : Int64} :
    x.truncate? = some n ↔ (-2 ^ 63 ≤ v ∧ v < 2 ^ 63) ∧ n.toInt = towardZero v := by
  rw [truncate?_eq_narrow? h, narrow?_eq_some_iff, inRange_iff h]
  refine ⟨fun hn => ⟨?_, hn⟩, fun hn => hn.2⟩
  rw [← hn]
  exact ⟨Int64.le_toInt n, Int64.toInt_lt n⟩

theorem exists_truncate? {x : Binary32} {v : ℚ} (h : x.value? = some v) (hlow : -2 ^ 63 ≤ v)
    (hhigh : v < 2 ^ 63) : ∃ n, x.truncate? = some n ∧ n.toInt = towardZero v := by
  obtain ⟨hlow', hhigh'⟩ := (inRange_iff h).1 ⟨hlow, hhigh⟩
  have hvalue : (Int64.ofInt (towardZero v)).toInt = towardZero v :=
    Int64.toInt_ofInt_of_le hlow' hhigh'
  exact ⟨_, (truncate?_eq_some_iff h).2 ⟨⟨hlow, hhigh⟩, hvalue⟩, hvalue⟩

theorem exists_value? {x : Binary32} {n : Int64} (h : x.truncate? = some n) :
    ∃ v, x.value? = some v := by
  cases x with
  | nan => nomatch h
  | infinite _ => nomatch h
  | finite s units hunits => exact ⟨_, rfl⟩

/-! ## There and back -/

theorem value?_ofInt {n k : ℤ} (hn : n.natAbs ≤ 2 ^ 63)
    (hk : signed (n < 0) (nearestUnits (n.natAbs * scale) 1) = k * scale) :
    (ofInt n).value? = some (k : ℚ) := by
  have hscale : (scale : ℚ) ≠ 0 := Nat.cast_ne_zero.2 (Nat.ne_of_gt scale_pos)
  rw [(ofInt_isNearest hn).value, hk, Int.cast_mul, Int.cast_natCast,
    mul_div_cancel_right₀ _ hscale]

/-- The integers from `2^63 - 2^38` on, and no others, are nearest to a number out of range. -/
theorem ofInt_inRange_iff (n : Int64) {v : ℚ} (h : (ofInt n.toInt).value? = some v) :
    -2 ^ 63 ≤ v ∧ v < 2 ^ 63 ↔ n.toInt < 2 ^ 63 - 2 ^ 38 := by
  have hlowest : (ofInt (-2 ^ 63)).value? = some ((-2 ^ 63 : ℤ) : ℚ) :=
    value?_ofInt (by decide) (by decide +kernel)
  have hbelow : (ofInt (2 ^ 63 - 2 ^ 38 - 1)).value? = some ((2 ^ 63 - 2 ^ 39 : ℤ) : ℚ) :=
    value?_ofInt (by decide) (by decide +kernel)
  have habove : (ofInt (2 ^ 63 - 2 ^ 38)).value? = some ((2 ^ 63 : ℤ) : ℚ) :=
    value?_ofInt (by decide) (by decide +kernel)
  have hn := natAbs_toInt_le n
  constructor
  · rintro ⟨-, hhigh⟩
    refine Int.not_le.1 fun hle => not_le.2 hhigh ?_
    have hmono := ofInt_mono (by decide) hn hle habove h
    norm_num at hmono ⊢
    exact hmono
  · intro hlt
    have hfirst := ofInt_mono (by decide) hn (Int64.le_toInt n) hlowest h
    have hlast := ofInt_mono hn (by decide) (Int.le_sub_one_of_lt hlt) h hbelow
    norm_num at hfirst hlast ⊢
    exact ⟨hfirst, by linarith⟩

end Number.Binary32

open Number Number.Binary32

/-- **Conversions between integers and floating point numbers.** Integers become nearest numbers,
ties to even, and keep their order. A number loses its fraction toward zero exactly where it is
finite and in the range of the integers. An integer of 24 bits survives the way there and back, and
the way fails for the integers from `2^63 - 2^38` on and for no others. -/
theorem integer_conversions :
    (∀ a b : Int64, a ≤ b → ∃ v w, (ofInt a.toInt).value? = some v ∧
      (ofInt b.toInt).value? = some w ∧ v ≤ w) ∧
    (∀ a : Int64, ∃ v, IsNearest a.toInt (ofInt a.toInt) v) ∧
    (∀ (x : Binary32) (v : ℚ), x.value? = some v → -2 ^ 63 ≤ v → v < 2 ^ 63 →
      ∃ n, x.truncate? = some n ∧ n.toInt = towardZero v) ∧
    (∀ (x : Binary32) (n : Int64), x.truncate? = some n →
      ∃ v, x.value? = some v ∧ -2 ^ 63 ≤ v ∧ v < 2 ^ 63) ∧
    (∀ n : Int64, |n.toInt| ≤ 2 ^ 24 →
      ((Value.int n).toFloat >>= fun x => (Value.float x).toInteger) = .ok n) ∧
    ∀ n : Int64, (∃ e, ((Value.int n).toFloat >>= fun x => (Value.float x).toInteger) = .error e) ↔
      2 ^ 63 - 2 ^ 38 ≤ n.toInt := by
  have hcall (n : Int64) : ((Value.int n).toFloat >>= fun x => (Value.float x).toInteger) =
      (Value.float (ofInt n.toInt)).toInteger := by
    rw [Value.toFloat, ok_bind]
  simp only [hcall]
  refine ⟨fun a b hle => ?_, fun a => ⟨_, ofInt_isNearest (natAbs_toInt_le a)⟩,
    fun x v hv hlow hhigh => exists_truncate? hv hlow hhigh, fun x n hn => ?_, fun n hn => ?_,
    fun n => ?_⟩
  · have hfirst := ofInt_isNearest (natAbs_toInt_le a)
    have hsecond := ofInt_isNearest (natAbs_toInt_le b)
    exact ⟨_, _, hfirst.value, hsecond.value, ofInt_mono (natAbs_toInt_le a) (natAbs_toInt_le b)
      (Int64.le_iff_toInt_le.1 hle) hfirst.value hsecond.value⟩
  · obtain ⟨v, hv⟩ := exists_value? hn
    exact ⟨v, hv, ((truncate?_eq_some_iff hv).1 hn).1⟩
  · rw [Int.abs_eq_natAbs] at hn
    obtain ⟨hunits, hexact⟩ := ofInt_of_natAbs_le (Int.ofNat_le.1 hn)
    have hback : (ofInt n.toInt).truncate? = some n := by
      rw [hexact]
      show narrow? (signed _ (n.toInt.natAbs * scale / scale)) = some n
      rw [Nat.mul_div_cancel _ scale_pos, signed_natAbs, narrow?_toInt]
    rw [Value.toInteger, hback]
  · have hvalue := (ofInt_isNearest (natAbs_toInt_le n)).value
    rw [← Int.not_lt, ← ofInt_inRange_iff n hvalue, Value.toInteger]
    cases htruncate : (ofInt n.toInt).truncate? with
    | some m =>
      refine ⟨nofun, fun hout => absurd ((truncate?_eq_some_iff hvalue).1 htruncate).1 hout⟩
    | none =>
      refine ⟨fun _ hin => ?_, fun _ => ⟨_, rfl⟩⟩
      obtain ⟨m, hm, -⟩ := exists_truncate? hvalue hin.1 hin.2
      rw [htruncate] at hm
      nomatch hm

/-- At both ends of the integers, around the first one that does not come back, and for a number
between integers. -/
theorem integer_conversions_ends :
    (∃ v w, (ofInt Int64.minValue.toInt).value? = some v ∧
      (ofInt Int64.maxValue.toInt).value? = some w ∧ v ≤ w) ∧
    (∃ hunits n, truncate? (.finite true (5 * Nat.pow 2 148) hunits) = some n ∧
      n.toInt = towardZero (-5 / 2)) ∧
    ((Value.int 16777216).toFloat >>= fun x => (Value.float x).toInteger) = .ok 16777216 ∧
    (∃ e, ((Value.int 9223371761976868864).toFloat >>= fun x => (Value.float x).toInteger) =
      .error e) ∧
    ¬ ∃ e, ((Value.int 9223371761976868863).toFloat >>= fun x => (Value.float x).toInteger) =
      .error e := by
  obtain ⟨hmono, -, hsome, -, hback, hfail⟩ := integer_conversions
  have hvalue : (signed true (5 * Nat.pow 2 148) / scale : ℚ) = -5 / 2 := by
    rw [signed_true, scale, Nat.pow_eq, Nat.pow_eq]
    norm_num
  have hunits : Representable (5 * Nat.pow 2 148) := by decide +kernel
  refine ⟨hmono _ _ (by decide), ⟨hunits, hsome _ _ (congrArg some hvalue) ?_ ?_⟩,
    hback _ (by decide), (hfail _).2 (by decide), fun h => absurd ((hfail _).1 h) (by decide)⟩
  · norm_num
  · norm_num

end SourcePreprocessor
