import SourcePreprocessor.Text.Escape
import SourcePreprocessor.Expr.Lexer
import SourcePreprocessor.Proofs.Number.RoundTrip
import SourcePreprocessor.Proofs.Text.Escaping

/-!
# Code units

A character is one code unit of 16 bits, or two when it is beyond them: a high and a low half. No
character is a half, so the units of a text spell it alone.

> `ofUtf16?_utf16`: the code units of a text are read back as the text.
-/

namespace SourcePreprocessor.Text

/-- Whether a code unit is the first half of a pair. -/
def isHighHalf (unit : Nat) : Bool := 0xD800 ≤ unit && unit < 0xDC00

/-- Whether a code unit is the second half of a pair. -/
def isLowHalf (unit : Nat) : Bool := 0xDC00 ≤ unit && unit < 0xE000

/-- The text that code units spell. There is none when a half stands alone, or when a number is no
code unit. -/
def ofUtf16? : List Nat → Option Text
  | [] => some []
  | unit :: rest =>
    if isHighHalf unit then
      match rest with
      | [] => none
      | low :: rest =>
        if isLowHalf low then
          (ofUtf16? rest).map
            (Char.ofNat (0x10000 + (unit - 0xD800) * 0x400 + (low - 0xDC00)) :: ·)
        else none
    else if isLowHalf unit || 0x10000 ≤ unit then none
    else (ofUtf16? rest).map (Char.ofNat unit :: ·)

/-- No character is a half. -/
theorem not_half (c : Char) : c.toNat < 0xD800 ∨ 0xE000 ≤ c.toNat := by
  rcases c.valid with h | ⟨h, -⟩
  · exact .inl h
  · exact .inr h

theorem toNat_lt (c : Char) : c.toNat < 0x110000 := by
  rcases c.valid with h | ⟨-, h⟩
  · exact Nat.lt_trans h (by decide)
  · exact h

theorem utf16_of_lt {c : Char} (h : c.toNat < 0x10000) : utf16 c = [c.toNat] := if_pos h

theorem lt_of_mem_utf16 {c : Char} {unit : Nat} (h : unit ∈ utf16 c) : unit < 0x10000 := by
  have hlt := toNat_lt c
  unfold utf16 at h
  split at h
  · next hsmall => exact List.mem_singleton.1 h ▸ hsmall
  · simp only [List.mem_cons, List.not_mem_nil, or_false] at h
    omega

/-- A code unit below the halves is the character. -/
theorem eq_of_mem_utf16 {c : Char} {unit : Nat} (h : unit ∈ utf16 c) (hunit : unit < 0xD800) :
    c.toNat = unit := by
  unfold utf16 at h
  split at h
  · exact (List.mem_singleton.1 h).symm
  · simp only [List.mem_cons, List.not_mem_nil, or_false] at h
    omega

theorem reads_utf16 (c : Char) : Reads ofUtf16? (utf16 c) [c] := by
  intro rest
  have hhalf := not_half c
  have hlt := toNat_lt c
  unfold utf16
  split
  · next hsmall =>
    have hhigh : isHighHalf c.toNat = false := by
      simp only [isHighHalf, Bool.and_eq_false_iff, decide_eq_false_iff_not]
      omega
    have hlow : isLowHalf c.toNat = false := by
      simp only [isLowHalf, Bool.and_eq_false_iff, decide_eq_false_iff_not]
      omega
    rw [List.singleton_append, ofUtf16?.eq_def]
    dsimp only
    rw [hhigh, hlow, if_neg (by decide), if_neg (by simpa using hsmall), Char.ofNat_toNat]
    rfl
  · next hlarge =>
    obtain ⟨n, hn⟩ : ∃ n, c.toNat = 0x10000 + n := ⟨c.toNat - 0x10000, by omega⟩
    have hhigh : isHighHalf (0xD800 + n / 0x400) = true := by
      simp only [isHighHalf, Bool.and_eq_true, decide_eq_true_eq]
      omega
    have hlow : isLowHalf (0xDC00 + n % 0x400) = true := by
      simp only [isLowHalf, Bool.and_eq_true, decide_eq_true_eq]
      omega
    have hvalue : 0x10000 + (0xD800 + n / 0x400 - 0xD800) * 0x400 + (0xDC00 + n % 0x400 - 0xDC00) =
        c.toNat := by omega
    rw [hn, Nat.add_sub_cancel_left]
    show ofUtf16? ((0xD800 + n / 0x400) :: (0xDC00 + n % 0x400) :: rest) = _
    rw [ofUtf16?, if_pos hhigh, if_pos hlow, hvalue, Char.ofNat_toNat]
    rfl

/-- The code units of a text spell it. -/
theorem ofUtf16?_utf16 (t : Text) : ofUtf16? (t.flatMap utf16) = some t := by
  have hreads := Reads.flatMap fun c (_ : c ∈ t) => reads_utf16 c
  rw [List.flatMap_singleton'] at hreads
  exact hreads.whole rfl

/-! ## Hexadecimal code units -/

/-- The code unit that four hexadecimal digits at the start of a text denote. -/
def codeUnit? (t : Text) : Option Nat :=
  if (t.take 4).length = 4 && (t.take 4).all Number.isHexDigit then
    some (Number.ofHexDigits (t.take 4))
  else none

theorem codeUnit?_upperHex4 {unit : Nat} (h : unit < 0x10000) (rest : Text) :
    codeUnit? (Number.upperHex4 unit ++ rest) = some unit := by
  have hlength := Number.length_upperHex4 h
  have htake : (Number.upperHex4 unit ++ rest).take 4 = Number.upperHex4 unit := by
    rw [← hlength, List.take_left]
  have hhex : (Number.upperHex4 unit).all Number.isHexDigit = true :=
    List.all_eq_true.2 fun d hd => Number.isHexDigit_of_mem_upperHex4 hd
  unfold codeUnit?
  rw [htake, hlength, hhex, Number.ofHexDigits_upperHex4]
  rfl

end SourcePreprocessor.Text
