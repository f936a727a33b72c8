import Mathlib.Data.List.TakeWhile
import SourcePreprocessor.Expr.Value

/-!
# Numbers read back from their text

The text of a floating point number is a decimal, and a decimal reads as the number nearest to it.
That the text reads back as the number has three parts.

Rounding sees a ratio and not its terms: `nearestUnits_mul` cancels a common factor. A number with
24 significant bits is its own nearest (`nearestUnits_one`), and so a decimal that is exactly a
number reads as that number. This settles the grid at which the search for digits ends, and the
search stops earlier only at a decimal that was seen to read back:

> `shortest_readsAs`: the decimal that is written for a number reads as the number.

What is written are the digits of that decimal with a point among them and perhaps zeros around
them. Zeros at the front leave the digits' value alone, and a zero at the end scales the decimal
without changing it (`toBinary32_mul_ten`). Together:

> `exists_floatText`: the text of a number is digits, a point and digits, and reads as the number.
-/

namespace SourcePreprocessor.Number

/-! ## Rounding -/

theorem roundHalfEven_mul {c : Nat} (hc : 0 < c) (p q : Nat) :
    roundHalfEven (p * c) (q * c) = roundHalfEven p q := by
  have hlow : 2 * (p % q * c) < q * c ↔ 2 * (p % q) < q := by
    rw [← Nat.mul_assoc]
    exact Nat.mul_lt_mul_right hc
  have hhigh : q * c < 2 * (p % q * c) ↔ q < 2 * (p % q) := by
    rw [← Nat.mul_assoc]
    exact Nat.mul_lt_mul_right hc
  unfold roundHalfEven
  rw [Nat.mul_mod_mul_right, Nat.mul_div_mul_right p q hc]
  simp only [hlow, hhigh]

/-- Rounding cancels a common factor. -/
theorem nearestUnits_mul {c : Nat} (hc : 0 < c) (p q : Nat) :
    nearestUnits (p * c) (q * c) = nearestUnits p q := by
  unfold nearestUnits
  rw [Nat.mul_div_mul_right p q hc, Nat.mul_right_comm, roundHalfEven_mul hc]

/-- A count with at most 24 significant bits is its own nearest. -/
theorem nearestUnits_one {units : Nat} (h : Representable units) : nearestUnits units 1 = units := by
  have hpos : 0 < spacing units := Nat.pow_pos (by decide)
  have hmod : units % spacing units = 0 := Nat.mod_eq_zero_of_dvd h.2
  unfold nearestUnits roundHalfEven
  rw [Nat.div_one, Nat.one_mul, hmod, if_pos hpos]
  exact Nat.div_mul_cancel h.2

theorem ofRatio_mul {c : Nat} (hc : 0 < c) (negative : Bool) (p q : Nat) :
    Binary32.ofRatio negative (p * c) (q * c) = Binary32.ofRatio negative p q := by
  unfold Binary32.ofRatio
  simp only [nearestUnits_mul hc]

/-- A ratio that is a count of units is the number of that count. -/
theorem ofRatio_exact {units c : Nat} (h : Representable units) (hc : 0 < c) (negative : Bool) :
    Binary32.ofRatio negative (units * c) c = .finite negative units h := by
  have hunits : nearestUnits (units * c) c = units := by
    have hscaled := nearestUnits_mul hc units 1
    rw [Nat.one_mul] at hscaled
    rw [hscaled, nearestUnits_one h]
  unfold Binary32.ofRatio
  simp only [hunits]
  rw [dif_pos h.1]

/-! ## Decimals -/

/-- The numeral of a number has a first digit. -/
theorem exists_decimal (n : Nat) : ∃ c t, decimal n = c :: t ∧ c.isDigit = true := by
  have hne : decimal n ≠ [] := Nat.toDigits_ne_nil
  obtain ⟨c, t, ht⟩ := List.exists_cons_of_ne_nil hne
  refine ⟨c, t, ht, isDigit_of_mem_decimal (?_ : c ∈ decimal n)⟩
  rw [ht]
  exact List.mem_cons_self

theorem length_decimal_mul_ten {n : Nat} (hn : 0 < n) :
    (decimal (n * 10)).length = (decimal n).length + 1 := by
  have happend : decimal (n * 10) = decimal n ++ Nat.toDigits 10 0 := by
    unfold decimal
    rw [Nat.toDigits_append_toDigits (by decide) hn (by decide), Nat.mul_comm]
    rfl
  rw [happend, List.length_append]
  rfl

/-! ## Hexadecimal digits -/

theorem hexDigit?_digitChar {d : Nat} (h : d < 16) : hexDigit? d.digitChar = some d :=
  (by decide : ∀ d < 16, hexDigit? d.digitChar = some d) d h

theorem ofHexDigits_append (t u : Text) :
    ofHexDigits (t ++ u) = u.foldl (fun n c => 16 * n + (hexDigit? c).getD 0) (ofHexDigits t) :=
  List.foldl_append

/-- The hexadecimal digits of a number are read as the number. -/
theorem ofHexDigits_toDigits (n : Nat) :
    ofHexDigits (Nat.toDigits 16 n) = n ∧ ∀ c ∈ Nat.toDigits 16 n, isHexDigit c = true := by
  have hdigit : ∀ d < 16, Nat.toDigits 16 d = [d.digitChar] ∧ isHexDigit d.digitChar = true :=
    fun d hd => ⟨Nat.toDigits_of_lt_base hd, by rw [isHexDigit, hexDigit?_digitChar hd]; rfl⟩
  induction n using Nat.base_induction 16 (by decide) with
  | single m hm =>
    obtain ⟨hm', hhex⟩ := hdigit m hm
    rw [hm']
    refine ⟨?_, fun c hc => List.mem_singleton.1 hc ▸ hhex⟩
    show 16 * 0 + (hexDigit? m.digitChar).getD 0 = m
    rw [hexDigit?_digitChar hm, Nat.mul_zero, Nat.zero_add]
    rfl
  | digit m k hk hm ih =>
    obtain ⟨hk', hhex⟩ := hdigit k hk
    rw [← Nat.toDigits_append_toDigits (by decide) hm hk, hk']
    constructor
    · rw [ofHexDigits_append, ih.1]
      show 16 * m + (hexDigit? k.digitChar).getD 0 = 16 * m + k
      rw [hexDigit?_digitChar hk]
      rfl
    · intro c hc
      rcases List.mem_append.1 hc with hc | hc
      · exact ih.2 c hc
      · exact List.mem_singleton.1 hc ▸ hhex

theorem ofHexDigits_replicate_zero (n : Nat) : ofHexDigits (List.replicate n '0') = 0 := by
  induction n with
  | zero => rfl
  | succ n ih =>
    rw [List.replicate_succ', ofHexDigits_append, ih]
    rfl

theorem ofHexDigits_hex4 (n : Nat) : ofHexDigits (hex4 n) = n := by
  unfold hex4 List.leftpad
  rw [ofHexDigits_append, ofHexDigits_replicate_zero]
  exact (ofHexDigits_toDigits n).1

theorem isHexDigit_of_mem_hex4 {n : Nat} {c : Char} (h : c ∈ hex4 n) : isHexDigit c = true := by
  rcases List.mem_append.1 h with h | h
  · rw [List.eq_of_mem_replicate h]
    rfl
  · exact (ofHexDigits_toDigits n).2 c h

/-- A number of 16 bits has exactly four hexadecimal digits. -/
theorem length_hex4 {n : Nat} (h : n < 0x10000) : (hex4 n).length = 4 := by
  have hle : (Nat.toDigits 16 n).length ≤ 4 :=
    (Nat.length_toDigits_le_iff (by decide) (by decide)).2 h
  unfold hex4
  rw [List.length_leftpad]
  exact Nat.max_eq_left hle

/-- Hexadecimal digits stand between zero and the small `f`. -/
theorem toNat_of_isHexDigit {c : Char} (h : isHexDigit c = true) :
    '0'.toNat ≤ c.toNat ∧ c.toNat ≤ 'f'.toNat := by
  unfold isHexDigit hexDigit? at h
  split at h
  · next hdigit =>
    obtain ⟨hlow, hhigh⟩ := Char.isDigit_iff_toNat.1 hdigit
    exact ⟨hlow, Nat.le_trans hhigh (by decide)⟩
  · split at h
    · next hlower =>
      exact ⟨Nat.le_trans (by decide) (UInt32.le_iff_toNat_le.1 hlower.1),
        UInt32.le_iff_toNat_le.1 hlower.2⟩
    · split at h
      · next hupper =>
        exact ⟨Nat.le_trans (by decide) (UInt32.le_iff_toNat_le.1 hupper.1),
          Nat.le_trans (UInt32.le_iff_toNat_le.1 hupper.2) (by decide)⟩
      · nomatch h

/-- The case of a letter does not matter for its value as a hexadecimal digit. -/
theorem hexDigit?_toUpper (c : Char) : hexDigit? c.toUpper = hexDigit? c := by
  by_cases h : c.toNat < 128
  · have hascii : ∀ n < 128, hexDigit? (Char.ofNat n).toUpper = hexDigit? (Char.ofNat n) := by
      decide
    have hc := hascii c.toNat h
    rwa [Char.ofNat_toNat] at hc
  · have hletter : ¬ (c.val ≥ 'a'.val ∧ c.val ≤ 'z'.val) := by
      rintro ⟨-, hle⟩
      exact h (Nat.lt_of_le_of_lt (UInt32.le_iff_toNat_le.1 hle) (by decide))
    have hsame : c.toUpper = c := dif_neg hletter
    rw [hsame]

theorem ofHexDigits_upperHex4 (n : Nat) : ofHexDigits (upperHex4 n) = n := by
  have hdigits : ofHexDigits (upperHex4 n) = ofHexDigits (hex4 n) := by
    unfold ofHexDigits upperHex4
    simp only [List.foldl_map, hexDigit?_toUpper]
  rw [hdigits, ofHexDigits_hex4]

theorem isHexDigit_of_mem_upperHex4 {n : Nat} {c : Char} (h : c ∈ upperHex4 n) :
    isHexDigit c = true := by
  obtain ⟨d, hd, rfl⟩ := List.mem_map.1 h
  rw [isHexDigit, hexDigit?_toUpper]
  exact isHexDigit_of_mem_hex4 hd

theorem length_upperHex4 {n : Nat} (h : n < 0x10000) : (upperHex4 n).length = 4 := by
  unfold upperHex4
  rw [List.length_map, length_hex4 h]

namespace Decimal

/-- The power of ten grows by a factor when its exponent is not negative, and is one otherwise. -/
theorem tenPower_succ {places : Int} (h : 0 ≤ places) :
    tenPower (places + 1) = tenPower places * 10 := by
  obtain ⟨n, rfl⟩ := Int.eq_ofNat_of_zero_le h
  rfl

theorem tenPower_of_nonpos {places : Int} (h : places ≤ 0) : tenPower places = 1 := by
  unfold tenPower
  rw [Int.toNat_of_nonpos h, Nat.pow_eq, Nat.pow_zero]

/-- A zero after the digits of a decimal changes nothing when the point stays where it is. -/
theorem toBinary32_mul_ten (negative : Bool) (digits : Nat) (places : Int) :
    toBinary32 negative ⟨digits * 10, places + 1⟩ = toBinary32 negative ⟨digits, places⟩ := by
  rcases Nat.eq_zero_or_pos digits with rfl | hpos
  · unfold toBinary32
    rw [if_pos (Nat.zero_mul 10), if_pos rfl]
  have hwidth : (((decimal (digits * 10)).length : Nat) : Int) - (places + 1) =
      (decimal digits).length - places := by
    rw [length_decimal_mul_ten hpos]
    omega
  have hratio : Binary32.ofRatio negative (digits * 10 * tenPower (-(places + 1)) * scale)
        (tenPower (places + 1)) =
      Binary32.ofRatio negative (digits * tenPower (-places) * scale) (tenPower places) := by
    -- the factor is missing in the power above, or it is in both terms and cancels
    by_cases hneg : places < 0
    · have hten : tenPower (-places) = tenPower (-(places + 1)) * 10 := by
        rw [← tenPower_succ (by omega)]
        congr 1
        omega
      rw [tenPower_of_nonpos (show places + 1 ≤ 0 by omega),
        tenPower_of_nonpos (Int.le_of_lt hneg), hten, Nat.mul_assoc digits,
        Nat.mul_comm 10]
    · rw [tenPower_of_nonpos (show -(places + 1) ≤ 0 by omega),
        tenPower_of_nonpos (show -places ≤ 0 by omega), tenPower_succ (Int.not_lt.1 hneg), Nat.mul_one,
        Nat.mul_one, Nat.mul_right_comm]
      exact ofRatio_mul (by decide) _ _ _
  unfold toBinary32
  simp only [hwidth, hratio, if_neg (Nat.ne_of_gt hpos),
    if_neg (show digits * 10 ≠ 0 by omega)]

theorem toBinary32_mul_pow (negative : Bool) (digits : Nat) (places : Int) (zeros : Nat) :
    toBinary32 negative ⟨digits * tenPower zeros, places + zeros⟩ =
      toBinary32 negative ⟨digits, places⟩ := by
  induction zeros with
  | zero =>
    rw [Int.natCast_zero, tenPower_of_nonpos (Int.le_refl 0), Nat.mul_one, Int.add_zero]
  | succ zeros ih =>
    rw [← ih, ← toBinary32_mul_ten negative (digits * tenPower zeros), Int.natCast_add,
      Int.natCast_one, tenPower_succ (Int.natCast_nonneg zeros), ← Nat.mul_assoc, Int.add_assoc]

theorem toBinary32_eq_ofRatio {d : Decimal} (hne : d.digits ≠ 0)
    (hbelow : ((decimal d.digits).length : Int) - d.places < 40)
    (habove : -46 < ((decimal d.digits).length : Int) - d.places) (negative : Bool) :
    d.toBinary32 negative =
      .ofRatio negative (d.digits * tenPower (-d.places) * scale) (tenPower d.places) := by
  show (if d.digits = 0 then _ else if _ then _ else if _ then _ else _) = _
  rw [if_neg hne, if_neg (by omega), if_neg (by omega)]

/-- A decimal reads as an infinity or a finite number of its sign. -/
theorem toBinary32_cases (negative : Bool) (d : Decimal) :
    d.toBinary32 negative = .infinite negative ∨
      ∃ units h, d.toBinary32 negative = .finite negative units h := by
  have hratio : ∀ p q, Binary32.ofRatio negative p q = .infinite negative ∨
      ∃ units h, Binary32.ofRatio negative p q = .finite negative units h := by
    intro p q
    unfold Binary32.ofRatio
    split
    · next h => exact .inr ⟨nearestUnits p q, ⟨h, nearestUnits_dvd p q⟩, rfl⟩
    · exact .inl rfl
  have hzero : ∃ units h, Binary32.zero negative = .finite negative units h :=
    ⟨0, by decide, rfl⟩
  unfold toBinary32
  dsimp only
  split
  · exact .inr hzero
  split
  · exact .inl rfl
  split
  · exact .inr hzero
  · exact hratio _ _

/-- The grid of 149 places holds every number, and no number has too many or too few digits there. -/
theorem readsAs_finestGrid {units : Nat} (h : Representable units) (hpos : 0 < units) :
    ReadsAs ⟨units * Nat.pow 5 149, 149⟩ units := by
  -- at 149 places, a width below 40 is at most 188 digits, and one above -46 at least 104
  have hbelow : (decimal (units * Nat.pow 5 149)).length ≤ 188 := by
    refine (Nat.length_toDigits_le_iff (by decide) (by decide)).2 ?_
    calc units * Nat.pow 5 149 < limit * Nat.pow 5 149 :=
          Nat.mul_lt_mul_of_pos_right h.1 (by decide +kernel)
      _ ≤ 10 ^ 188 := by decide +kernel
  have habove : 104 < (decimal (units * Nat.pow 5 149)).length := by
    refine Nat.lt_of_not_le fun hle => ?_
    have hsmall := (Nat.length_toDigits_le_iff (by decide) (by decide)).1 hle
    have hlarge : 10 ^ 104 ≤ 1 * Nat.pow 5 149 := by decide +kernel
    exact Nat.not_lt_of_le (Nat.le_trans hlarge (Nat.mul_le_mul_right _ hpos)) hsmall
  have hratio : units * Nat.pow 5 149 * tenPower (-149) * scale = units * tenPower 149 := by
    have hten : Nat.pow 5 149 * (tenPower (-149) * scale) = tenPower 149 := by decide +kernel
    rw [Nat.mul_assoc, Nat.mul_assoc, hten]
  have hpower : 0 < tenPower 149 := by decide +kernel
  have hread : toBinary32 false ⟨units * Nat.pow 5 149, 149⟩ = .finite false units h := by
    have hdigits : 0 < units * Nat.pow 5 149 := Nat.mul_pos hpos (by decide +kernel)
    rw [toBinary32_eq_ofRatio (Nat.ne_of_gt hdigits) (by dsimp only; omega)
      (by dsimp only; omega), hratio]
    exact ofRatio_exact h hpower false
  unfold ReadsAs
  rw [hread]
  rfl

theorem shortestFrom_readsAs {units : Nat} (h : Representable units) (hpos : 0 < units)
    (grids : Nat) : ∀ places, (shortestFrom units grids places).ReadsAs units := by
  induction grids with
  | zero => exact fun _ => readsAs_finestGrid h hpos
  | succ grids ih =>
    intro places
    rw [shortestFrom]
    split
    · next d hd => exact readsAs_of_onGrid? hd
    · exact ih (places + 1)

theorem shortest_readsAs {units : Nat} (h : Representable units) : (shortest units).ReadsAs units := by
  unfold shortest
  split
  · next hzero =>
    subst hzero
    decide
  · next hne => exact shortestFrom_readsAs h (Nat.pos_of_ne_zero hne) 188 (-38)

/-- A decimal without a sign that reads as a count of units reads as the number of that count. -/
theorem toBinary32_of_readsAs {units : Nat} (h : Representable units) {d : Decimal}
    (hd : d.ReadsAs units) : d.toBinary32 false = .finite false units h := by
  unfold ReadsAs at hd
  rcases toBinary32_cases false d with hread | ⟨found, hfound, hread⟩
  · rw [hread] at hd
    have hlimit : (limit : Int) = units := Option.some.inj hd
    exact absurd h.1 (by omega)
  · rw [hread] at hd ⊢
    have hunits : (found : Int) = units := Option.some.inj hd
    obtain rfl : found = units := by omega
    rfl

/-! ## Text -/

/-- Digits, a point and digits make up a numeral of as many places as digits follow the point. -/
theorem ofNumeral_point {whole fraction : Text} (hwhole : ∀ c ∈ whole, c.isDigit = true)
    (hfraction : ∀ c ∈ fraction, c.isDigit = true) (negative : Bool) :
    Binary32.ofNumeral negative (whole ++ '.' :: fraction) =
      toBinary32 negative ⟨ofDigits (whole ++ fraction), fraction.length⟩ := by
  have htake : (whole ++ '.' :: fraction).takeWhile Char.isDigit = whole := by
    rw [List.takeWhile_append_of_pos hwhole]
    exact List.append_nil whole
  have hdrop : (whole ++ '.' :: fraction).dropWhile Char.isDigit = '.' :: fraction := by
    rw [List.dropWhile_append_of_pos hwhole]
    rfl
  have htake' : fraction.takeWhile Char.isDigit = fraction :=
    List.takeWhile_eq_self_iff.2 hfraction
  have hdrop' : fraction.dropWhile Char.isDigit = [] := List.dropWhile_eq_nil_iff.2 hfraction
  unfold Binary32.ofNumeral
  rw [htake, hdrop]
  show toBinary32 negative ⟨ofDigits (whole ++ fraction.takeWhile Char.isDigit),
    (fraction.takeWhile Char.isDigit).length - readExponent (fraction.dropWhile Char.isDigit)⟩ = _
  rw [htake', hdrop', readExponent, Int.sub_zero]

/-- A zero after the digits of a number makes it ten times as large. -/
theorem ofDigits_decimal_zero (n : Nat) : ofDigits (decimal n ++ ['0']) = n * 10 := by
  unfold ofDigits
  rw [Nat.ofDigitChars_append]
  rw [show Nat.ofDigitChars 10 (decimal n) 0 = n from ofDigits_decimal n]
  exact Nat.mul_comm 10 n

/-- Zeros before the digits of a number leave it as it is. -/
theorem ofDigits_leftpad (width n : Nat) :
    ofDigits ((decimal n).leftpad width '0') = n ∧
      ∀ c ∈ (decimal n).leftpad width '0', c.isDigit = true := by
  constructor
  · unfold ofDigits List.leftpad
    rw [Nat.ofDigitChars_append, Nat.ofDigitChars_replicate_zero, Nat.mul_zero]
    exact ofDigits_decimal n
  · intro c hc
    rcases List.mem_append.1 hc with hzero | hc
    · rw [List.eq_of_mem_replicate hzero]
      rfl
    · exact isDigit_of_mem_decimal hc

/-- The text of a decimal with a point, or one that is added at its end, is digits around a point
that read as the decimal. -/
theorem exists_text (d : Decimal) :
    ∃ whole fraction : Text,
      (if d.places ≤ 0 then d.text ++ ['.', '0'] else d.text) = whole ++ '.' :: fraction ∧
      whole ≠ [] ∧ (∀ c ∈ whole, c.isDigit = true) ∧ (∀ c ∈ fraction, c.isDigit = true) ∧
      ∀ negative, toBinary32 negative ⟨ofDigits (whole ++ fraction), fraction.length⟩ =
        d.toBinary32 negative := by
  obtain ⟨digits, places⟩ := d
  by_cases hplaces : places ≤ 0
  -- the digits with zeros for the missing places, and the zero that is added after the point
  · obtain ⟨zeros, rfl⟩ : ∃ n : Nat, places = -n := ⟨(-places).toNat, by omega⟩
    have htext : text ⟨digits, -zeros⟩ = decimal (digits * tenPower zeros) := by
      unfold text
      rw [if_pos hplaces, Int.neg_neg]
    refine ⟨decimal (digits * tenPower zeros), ['0'], ?_, Nat.toDigits_ne_nil,
      fun c => isDigit_of_mem_decimal, List.forall_mem_singleton.2 rfl, fun negative => ?_⟩
    · rw [if_pos hplaces, htext]
    · have hvalue : ofDigits (decimal (digits * tenPower zeros) ++ ['0']) =
          digits * tenPower (zeros + 1 : Nat) := by
        rw [ofDigits_decimal_zero, Int.natCast_add, Int.natCast_one,
          tenPower_succ (Int.natCast_nonneg zeros), Nat.mul_assoc]
      rw [hvalue, ← toBinary32_mul_pow negative digits (-zeros) (zeros + 1)]
      congr 2
      show (1 : Int) = -zeros + (zeros + 1 : Nat)
      omega
  -- the digits with zeros at the front, so many that one of them is before the point
  · obtain ⟨n, rfl⟩ : ∃ n : Nat, places = n := ⟨places.toNat, by omega⟩
    have hlength : ((decimal digits).leftpad (n + 1) '0').length =
        max (n + 1) (decimal digits).length := List.length_leftpad ..
    obtain ⟨hvalue, hdigit⟩ := ofDigits_leftpad (n + 1) digits
    have htext : text ⟨digits, n⟩ = _ := if_neg hplaces
    rw [Int.toNat_natCast] at htext
    generalize (decimal digits).leftpad (n + 1) '0' = all at hlength hvalue hdigit htext
    refine ⟨all.take (all.length - n), all.drop (all.length - n), ?_, ?_,
      fun c hc => hdigit c (List.mem_of_mem_take hc),
      fun c hc => hdigit c (List.mem_of_mem_drop hc), fun negative => ?_⟩
    · rw [if_neg hplaces, htext]
    · intro hnil
      have htake := congrArg List.length hnil
      rw [List.length_take, List.length_nil] at htake
      omega
    · rw [List.take_append_drop, hvalue, List.length_drop]
      congr 2
      omega

end Decimal

/-- The text of a number without a sign is digits, a point and digits, which read as the number. -/
theorem exists_floatText {units : Nat} (h : Representable units) :
    ∃ whole fraction : Text, Value.floatText (.finite false units h) = whole ++ '.' :: fraction ∧
      whole ≠ [] ∧ (∀ c ∈ whole, c.isDigit = true) ∧ (∀ c ∈ fraction, c.isDigit = true) ∧
      Binary32.ofNumeral false (whole ++ '.' :: fraction) = .finite false units h := by
  obtain ⟨whole, fraction, htext, hne, hwhole, hfraction, hread⟩ :=
    (Decimal.shortest units).exists_text
  refine ⟨whole, fraction, ?_, hne, hwhole, hfraction, ?_⟩
  · rw [← htext]
    show (if (Decimal.shortest units).text.all (fun c => c.isDigit || c = '-') = true then
      (Decimal.shortest units).text ++ ['.', '0'] else (Decimal.shortest units).text) = _
    by_cases hplaces : (Decimal.shortest units).places ≤ 0
    · have hall : (Decimal.shortest units).text.all (fun c => c.isDigit || c = '-') = true := by
        rw [Decimal.text, if_pos hplaces, List.all_eq_true]
        intro c hc
        rw [isDigit_of_mem_decimal hc]
        rfl
      rw [if_pos hplaces, if_pos hall]
    · rw [if_neg hplaces] at htext ⊢
      refine if_neg fun hall => ?_
      rw [htext, List.all_append, List.all_cons] at hall
      simp at hall
  · rw [Decimal.ofNumeral_point hwhole hfraction, hread]
    exact Decimal.toBinary32_of_readsAs h (Decimal.shortest_readsAs h)

end SourcePreprocessor.Number
