import Mathlib.Algebra.Ring.Int.Defs
import SourcePreprocessor.Expr.Function
import SourcePreprocessor.Proofs.Number.RoundTrip
import SourcePreprocessor.Proofs.Text.Trim

/-!
# Reading signed integers

A signed integer is read from left to right. Each digit makes a number out of the one so far, and
the number has to fit at every step. What a numeral denotes is said without these steps
(`SignedNumeral`): an optional sign and at least one digit, with the value of all the digits.

Digits that follow only take a number further from zero, so a number that does not fit at one step
does not fit at the end (`narrow?_signed_none`). This makes the steps agree with the whole:

> `readDigits_of_digits`: digits are read as their number if it fits, and otherwise it is out of
> range, whatever the length of the digits and however many zeros lead them;
> `readInteger_of_numeral` and `exists_numeral_of_readInteger`: so exactly the numerals are read;
> `str2int_reads`: and `str2int` reads a text between blanks like this.
-/

namespace SourcePreprocessor

namespace Number

/-- The text is an optional sign and at least one digit, and the integer is what they denote. -/
inductive SignedNumeral : Text → Int → Prop
  | plain {digits : Text} (nonempty : digits ≠ []) (decimal : ∀ c ∈ digits, c.isDigit = true) :
    SignedNumeral digits (ofDigits digits)
  | plus {digits : Text} (nonempty : digits ≠ []) (decimal : ∀ c ∈ digits, c.isDigit = true) :
    SignedNumeral ('+' :: digits) (ofDigits digits)
  | minus {digits : Text} (nonempty : digits ≠ []) (decimal : ∀ c ∈ digits, c.isDigit = true) :
    SignedNumeral ('-' :: digits) (-ofDigits digits)

/-- The integer of 64 bits with the given value, or that there is none. -/
def fitted (n : Int) : Except NumeralError Int64 :=
  match narrow? n with
  | some m => .ok m
  | none => .error .outOfRange

theorem fitted_toInt (m : Int64) : fitted m.toInt = .ok m := by
  unfold fitted
  rw [narrow?_toInt]

theorem fitted_eq_ok_iff {n : Int} {m : Int64} : fitted n = .ok m ↔ m.toInt = n := by
  unfold fitted
  rw [← narrow?_eq_some_iff]
  cases narrow? n with
  | some k =>
    exact ⟨fun h => congrArg some (Except.ok.inj h), fun h => congrArg _ (Option.some.inj h)⟩
  | none => exact ⟨nofun, nofun⟩

theorem fitted_of_outside {n : Int} (h : n < -2 ^ 63 ∨ 2 ^ 63 - 1 < n) :
    fitted n = .error .outOfRange := by
  have hnone : narrow? n = none := by
    rw [narrow?_eq_none_iff, Int64.toInt_minValue, Int64.toInt_maxValue]
    omega
  unfold fitted
  rw [hnone]

/-! ## Digits -/

theorem le_ofDigitChars (t : Text) (n : Nat) : n ≤ Nat.ofDigitChars 10 t n := by
  rw [Nat.ofDigitChars_eq_ofDigitChars_zero]
  exact Nat.le_trans (Nat.le_mul_of_pos_left n (Nat.pow_pos (by decide))) (Nat.le_add_right _ _)

/-- A number that does not fit does not fit further from zero either. -/
theorem narrow?_signed_none {negative : Bool} {n m : Nat} (hle : n ≤ m)
    (h : narrow? (signed negative n) = none) : narrow? (signed negative m) = none := by
  rw [narrow?_eq_none_iff, Int64.toInt_minValue, Int64.toInt_maxValue] at h ⊢
  cases negative with
  | false =>
    simp only [signed, Bool.false_eq_true, if_false] at h ⊢
    omega
  | true =>
    simp only [signed, if_true] at h ⊢
    omega

/-- One more digit after a number. -/
theorem signed_digit {c : Char} (hc : c.isDigit = true) (negative : Bool) (n : Nat) :
    10 * signed negative n + (if negative then -((c.toNat : Int) - '0'.toNat)
      else (c.toNat : Int) - '0'.toNat) = signed negative (10 * n + (c.toNat - '0'.toNat)) := by
  have hzero : '0'.toNat ≤ c.toNat := (Char.isDigit_iff_toNat.1 hc).1
  cases negative with
  | false =>
    simp only [signed, Bool.false_eq_true, if_false]
    omega
  | true =>
    simp only [signed, if_true]
    omega

/-- Digits after a number are read as the number that they make of it, if that fits. -/
theorem readDigits_of_digits {negative : Bool} {t : Text} (ht : ∀ c ∈ t, c.isDigit = true)
    {value : Int64} {n : Nat} (hvalue : value.toInt = signed negative n) :
    readDigits negative value t = fitted (signed negative (Nat.ofDigitChars 10 t n)) := by
  induction t generalizing value n with
  | nil =>
    rw [readDigits, Nat.ofDigitChars_nil, ← hvalue, fitted_toInt]
  | cons c t ih =>
    rw [List.forall_mem_cons] at ht
    rw [readDigits, if_pos ht.1, Nat.ofDigitChars_cons]
    dsimp only
    rw [hvalue, signed_digit ht.1]
    cases hnext : narrow? (signed negative (10 * n + (c.toNat - '0'.toNat))) with
    | some next => exact ih ht.2 (narrow?_eq_some_iff.1 hnext)
    | none =>
      -- the number at the end is even further out
      have hlast := narrow?_signed_none (le_ofDigitChars t _) hnext
      unfold fitted
      rw [hlast]

/-- Nothing but digits is read. -/
theorem isDigit_of_readDigits {negative : Bool} {t : Text} {value m : Int64}
    (h : readDigits negative value t = .ok m) : ∀ c ∈ t, c.isDigit = true := by
  induction t generalizing value with
  | nil => nofun
  | cons c t ih =>
    rw [readDigits] at h
    split at h
    · next hc =>
      dsimp only at h
      split at h
      · exact List.forall_mem_cons.2 ⟨hc, ih h⟩
      · nomatch h
    · nomatch h

/-! ## Numerals -/

/-- A numeral is read as its integer, if that fits. -/
theorem readInteger_of_numeral {t : Text} {n : Int} (h : SignedNumeral t n) :
    readInteger t = fitted n := by
  have hread (negative : Bool) {digits : Text} (hdigits : ∀ c ∈ digits, c.isDigit = true) :
      readDigits negative 0 digits = fitted (signed negative (ofDigits digits)) :=
    readDigits_of_digits hdigits (by cases negative <;> rfl)
  cases h with
  | plain nonempty decimal =>
    obtain ⟨c, digits, rfl⟩ := List.exists_cons_of_ne_nil nonempty
    have hc : c.isDigit = true := decimal c List.mem_cons_self
    have hplus : c ≠ '+' := by
      rintro rfl
      nomatch hc
    have hminus : c ≠ '-' := by
      rintro rfl
      nomatch hc
    rw [readInteger, hread false decimal]
    · rfl
    all_goals
      intros
      simp_all
  | plus nonempty decimal =>
    obtain ⟨c, digits, rfl⟩ := List.exists_cons_of_ne_nil nonempty
    exact hread false decimal
  | minus nonempty decimal =>
    obtain ⟨c, digits, rfl⟩ := List.exists_cons_of_ne_nil nonempty
    exact hread true decimal

/-- What is read is a numeral. -/
theorem exists_numeral_of_readInteger {t : Text} {m : Int64} (h : readInteger t = .ok m) :
    SignedNumeral t m.toInt := by
  have hnumeral : ∃ n, SignedNumeral t n := by
    unfold readInteger at h
    split at h
    · nomatch h
    · nomatch h
    · nomatch h
    · next digits hne => exact ⟨_, .plus (fun hnil => hne (hnil ▸ rfl)) (isDigit_of_readDigits h)⟩
    · next digits hne => exact ⟨_, .minus (fun hnil => hne (hnil ▸ rfl)) (isDigit_of_readDigits h)⟩
    · next hne _ _ _ _ => exact ⟨_, .plain hne (isDigit_of_readDigits h)⟩
  obtain ⟨n, hn⟩ := hnumeral
  rw [readInteger_of_numeral hn, fitted_eq_ok_iff] at h
  exact h ▸ hn

theorem signedNumeral_signedDecimal (n : Int) : SignedNumeral (signedDecimal n) n := by
  have hdigits (m : Nat) : decimal m ≠ [] ∧ ∀ c ∈ decimal m, c.isDigit = true :=
    ⟨Nat.toDigits_ne_nil, fun _ hc => isDigit_of_mem_decimal hc⟩
  cases n with
  | ofNat m =>
    have hplain := SignedNumeral.plain (hdigits m).1 (hdigits m).2
    rw [ofDigits_decimal] at hplain
    exact hplain
  | negSucc m =>
    have hminus := SignedNumeral.minus (hdigits (m + 1)).1 (hdigits (m + 1)).2
    rw [ofDigits_decimal] at hminus
    exact hminus

/-- No character of a numeral is blank. -/
theorem isBlank_of_mem_signedNumeral {t : Text} {n : Int} (h : SignedNumeral t n) :
    ∀ c ∈ t, Text.isBlank c = false := by
  have hdigit : ∀ c : Char, c.isDigit = true → Text.isBlank c = false := by
    intro c hc
    obtain ⟨hlow, hhigh⟩ := Char.isDigit_iff_toNat.1 hc
    have hrange : 48 ≤ c.toNat ∧ c.toNat ≤ 57 := ⟨hlow, hhigh⟩
    simp only [Text.isBlank, Bool.or_eq_false_iff, Bool.and_eq_false_iff, decide_eq_false_iff_not,
      beq_eq_false_iff_ne]
    omega
  cases h with
  | plain _ decimal => exact fun c hc => hdigit c (decimal c hc)
  | plus _ decimal => exact List.forall_mem_cons.2 ⟨by decide, fun c hc => hdigit c (decimal c hc)⟩
  | minus _ decimal => exact List.forall_mem_cons.2 ⟨by decide, fun c hc => hdigit c (decimal c hc)⟩

end Number

open Number

/-- A numeral between blanks gives its integer, or overflows. -/
theorem integerOf_of_numeral {t : Text} {n : Int} (h : SignedNumeral (Text.trim t) n) :
    Function.integerOf t = match fitted n with
      | .ok m => .ok (.int m)
      | .error _ => .error (.integerOverflow "str2int".toList) := by
  unfold Function.integerOf
  rw [readInteger_of_numeral h]
  unfold fitted
  cases narrow? n <;> rfl

/-- **Integers are read exactly.** `str2int` gives an integer exactly when the text, without the
blanks around it, is an optional sign and at least one digit, with any number of leading zeros, and
the integer is what they denote and has 64 bits. Every other text fails as an overflow or as no
number, and digits whose value is out of range fail as an overflow. An integer that is shown is read
back. -/
theorem str2int_reads :
    (∀ (t : Text) (v : Int),
      (∃ n : Int64, callFunction "str2int".toList [.str t] = .ok (.int n) ∧ n.toInt = v) ↔
        SignedNumeral (Text.trim t) v ∧ -2 ^ 63 ≤ v ∧ v ≤ 2 ^ 63 - 1) ∧
    (∀ t, (∃ n, callFunction "str2int".toList [.str t] = .ok (.int n)) ∨
      callFunction "str2int".toList [.str t] = .error (.integerOverflow "str2int".toList) ∨
      callFunction "str2int".toList [.str t] = .error (.invalidNumber t)) ∧
    (∀ t v, SignedNumeral (Text.trim t) v → v < -2 ^ 63 ∨ 2 ^ 63 - 1 < v →
      callFunction "str2int".toList [.str t] = .error (.integerOverflow "str2int".toList)) ∧
    ∀ n : Int64,
      callFunction "str2int".toList [.str (Value.display (.int n))] = .ok (.int n) := by
  have hcall (t : Text) : callFunction "str2int".toList [.str t] = Function.integerOf t := rfl
  simp only [hcall]
  refine ⟨fun t v => ⟨?_, ?_⟩, fun t => ?_, fun t v hnumeral hout => ?_, fun n => ?_⟩
  · rintro ⟨n, hread, rfl⟩
    have hinteger : readInteger (Text.trim t) = .ok n := by
      unfold Function.integerOf at hread
      split at hread
      · next m hm => rw [hm, Value.int.inj (Except.ok.inj hread)]
      · nomatch hread
      · nomatch hread
    exact ⟨exists_numeral_of_readInteger hinteger, Int64.le_toInt n,
      Int.le_sub_one_of_lt (Int64.toInt_lt n)⟩
  · rintro ⟨hnumeral, hlow, hhigh⟩
    have hvalue : (Int64.ofInt v).toInt = v := Int64.toInt_ofInt_of_le hlow (by omega)
    refine ⟨Int64.ofInt v, ?_, hvalue⟩
    rw [integerOf_of_numeral hnumeral, fitted_eq_ok_iff.2 hvalue]
  · unfold Function.integerOf
    split
    · next n _ => exact .inl ⟨n, rfl⟩
    · exact .inr (.inl rfl)
    · exact .inr (.inr rfl)
  · rw [integerOf_of_numeral hnumeral, fitted_of_outside hout]
  · have hnumeral := signedNumeral_signedDecimal n.toInt
    have htrim : Text.trim (signedDecimal n.toInt) = signedDecimal n.toInt :=
      Text.trim_of_not_blank (isBlank_of_mem_signedNumeral hnumeral)
    show Function.integerOf (signedDecimal n.toInt) = _
    rw [integerOf_of_numeral (htrim.symm ▸ hnumeral), fitted_toInt]

/-- The smallest integer is read with leading zeros and blanks around it, the next smaller one is
out of range. -/
theorem str2int_reads_smallest :
    (∃ n : Int64, callFunction "str2int".toList [.str "\t-0009223372036854775808\u00a0".toList] =
      .ok (.int n) ∧ n.toInt = -9223372036854775808) ∧
    SignedNumeral (Text.trim " -0009223372036854775809".toList) (-9223372036854775809) ∧
    callFunction "str2int".toList [.str " -0009223372036854775809".toList] =
      .error (.integerOverflow "str2int".toList) := by
  have hminus (t digits : Text) (n : Nat) (htrim : Text.trim t = '-' :: digits)
      (hne : digits ≠ []) (hdecimal : digits.all Char.isDigit = true) (hn : ofDigits digits = n) :
      SignedNumeral (Text.trim t) (-n) :=
    htrim ▸ hn ▸ .minus hne (List.all_eq_true.1 hdecimal)
  have hsmallest := hminus "\t-0009223372036854775808\u00a0".toList
    "0009223372036854775808".toList 9223372036854775808 (by decide +kernel) (by decide +kernel)
    (by decide +kernel) (by decide +kernel)
  have hnext := hminus " -0009223372036854775809".toList
    "0009223372036854775809".toList 9223372036854775809 (by decide +kernel) (by decide +kernel)
    (by decide +kernel) (by decide +kernel)
  exact ⟨(str2int_reads.1 _ _).2 ⟨hsmallest, by decide, by decide⟩, hnext,
    str2int_reads.2.2.1 _ _ hnext (.inl (by decide))⟩

end SourcePreprocessor
