import SourcePreprocessor.Proofs.Text.CodeUnits
import SourcePreprocessor.Proofs.Text.Escaping

/-!
# Text inside literals

A literal writes a character in one of three ways: as a backslash and a letter, as itself, or as its
code units, each of them a backslash, the letter `u` and four hexadecimal digits. The styles of
literals differ in the characters that have a letter and in those that stand for themselves
(`LiteralStyle`).

A character is escaped when an odd number of backslashes stands right before it. What is written for
one character leaves nothing escaped after it, and so a place in the whole text can be judged within
what one character was written as:

> `escapes_of_letter`: a character that has a letter is escaped wherever it stands;
> `unit_of_not_escapes`: an unescaped backslash with a `u` after it is the escape of a code unit, of
> a character that has no letter.
-/

namespace SourcePreprocessor.Text

/-! ## Backslashes -/

/-- The number of backslashes that end a text. -/
def backslashes (t : Text) : Nat := (t.reverse.takeWhile (· = '\\')).length

/-- The text escapes what follows it: an odd number of backslashes ends it. -/
def Escapes (t : Text) : Prop := backslashes t % 2 = 1

theorem backslashes_concat (t : Text) (c : Char) :
    backslashes (t ++ [c]) = if c = '\\' then backslashes t + 1 else 0 := by
  unfold backslashes
  rw [List.reverse_concat, List.takeWhile_cons]
  simp only [decide_eq_true_eq]
  split <;> rfl

theorem not_escapes_nil : ¬ Escapes [] := Nat.zero_ne_one

/-- A backslash escapes what follows unless it is escaped itself. -/
theorem escapes_backslash (t : Text) : Escapes (t ++ ['\\']) ↔ ¬ Escapes t := by
  unfold Escapes
  rw [backslashes_concat, if_pos rfl]
  omega

theorem not_escapes_concat (t : Text) {c : Char} (h : c ≠ '\\') : ¬ Escapes (t ++ [c]) := by
  unfold Escapes
  rw [backslashes_concat, if_neg h]
  decide

/-- Parts that leave nothing escaped one by one leave nothing escaped together. -/
theorem not_escapes_flatMap {β : Type} {write : β → Text}
    (h : ∀ part before, ¬ Escapes before → ¬ Escapes (before ++ write part)) (parts : List β)
    {before : Text} (hbefore : ¬ Escapes before) : ¬ Escapes (before ++ parts.flatMap write) := by
  induction parts generalizing before with
  | nil => rwa [List.flatMap_nil, List.append_nil]
  | cons part parts ih =>
    rw [List.flatMap_cons, ← List.append_assoc]
    exact ih (h part before hbefore)

/-! ## Escapes of code units -/

/-- The escape of a code unit. -/
def unitEscape (unit : Nat) : Text := '\\' :: 'u' :: Number.upperHex4 unit

theorem length_unitEscape {unit : Nat} (h : unit < 0x10000) : (unitEscape unit).length = 6 := by
  rw [unitEscape, List.length_cons, List.length_cons, Number.length_upperHex4 h]

theorem mem_unitEscape {unit : Nat} {c : Char} (h : c ∈ unitEscape unit) :
    c = '\\' ∨ c = 'u' ∨ Number.isHexDigit c = true := by
  rcases List.mem_cons.1 h with h | h
  · exact .inl h
  · rcases List.mem_cons.1 h with h | h
    · exact .inr (.inl h)
    · exact .inr (.inr (Number.isHexDigit_of_mem_upperHex4 h))

theorem ne_backslash_of_isHexDigit {c : Char} (h : Number.isHexDigit c = true) : c ≠ '\\' := by
  rintro rfl
  nomatch h

theorem not_escapes_unitEscape (before : Text) (unit : Nat) :
    ¬ Escapes (before ++ unitEscape unit) := by
  rcases List.eq_nil_or_concat (Number.upperHex4 unit) with h | ⟨digits, last, h⟩
  · have hends : unitEscape unit = ['\\'] ++ ['u'] := by rw [unitEscape, h]; rfl
    rw [hends, ← List.append_assoc]
    exact not_escapes_concat _ (by decide)
  · rw [List.concat_eq_append] at h
    have hlast : last ∈ Number.upperHex4 unit := h ▸ List.mem_append_right _ List.mem_cons_self
    have hends : unitEscape unit = '\\' :: 'u' :: digits ++ [last] := by rw [unitEscape, h]; rfl
    rw [hends, ← List.append_assoc]
    exact not_escapes_concat _
      (ne_backslash_of_isHexDigit (Number.isHexDigit_of_mem_upperHex4 hlast))

/-- The backslash in the escape of a code unit is its first character. -/
theorem eq_nil_of_unitEscape {unit : Nat} {left right : Text}
    (h : unitEscape unit = left ++ '\\' :: right) :
    left = [] ∧ right = 'u' :: Number.upperHex4 unit := by
  have hno : '\\' ∉ 'u' :: Number.upperHex4 unit := by
    rw [List.mem_cons, not_or]
    exact ⟨by decide,
      fun hmem => ne_backslash_of_isHexDigit (Number.isHexDigit_of_mem_upperHex4 hmem) rfl⟩
  obtain ⟨rfl, hright⟩ | ⟨left', -, hright⟩ := List.cons_eq_append_iff.1 h
  · exact ⟨rfl, (List.cons.inj hright).2⟩
  · rw [hright] at hno
    exact absurd (List.mem_append_right left' List.mem_cons_self) hno

/-! ## Styles of literals -/

/-- How a kind of literal writes its characters. -/
structure LiteralStyle where
  /-- The characters that have a letter, with the letter that follows the backslash. -/
  letters : List (Char × Char)
  /-- Whether a character that has no letter stands for itself. -/
  plain : Char → Bool
  backslash : (letters.lookup '\\').isSome = true
  unit : ∀ entry ∈ letters, entry.2 ≠ 'u'

namespace LiteralStyle

/-- What a character is written as. -/
def write (style : LiteralStyle) (c : Char) : Text :=
  match style.letters.lookup c with
  | some letter => ['\\', letter]
  | none => if style.plain c then [c] else (utf16 c).flatMap unitEscape

variable {style : LiteralStyle}

theorem mem_of_lookup {c letter : Char} (h : style.letters.lookup c = some letter) :
    (c, letter) ∈ style.letters := by
  obtain ⟨before, after, hletters, -⟩ := List.lookup_eq_some_iff.1 h
  rw [hletters]
  exact List.mem_append_right before List.mem_cons_self

theorem ne_backslash {c : Char} (h : style.letters.lookup c = none) : c ≠ '\\' := by
  rintro rfl
  have hbackslash := style.backslash
  rw [h] at hbackslash
  nomatch hbackslash

/-- A character is written with its letter, as itself or as its code units. -/
theorem write_cases (style : LiteralStyle) (c : Char) :
    (∃ letter, style.letters.lookup c = some letter ∧ style.write c = ['\\', letter]) ∨
    (style.letters.lookup c = none ∧ style.plain c = true ∧ style.write c = [c]) ∨
    (style.letters.lookup c = none ∧ style.plain c = false ∧
      style.write c = (utf16 c).flatMap unitEscape) := by
  unfold write
  split
  · next letter h => exact .inl ⟨letter, h, rfl⟩
  · next h =>
    split
    · next hplain => exact .inr (.inl ⟨h, hplain, rfl⟩)
    · next hplain => exact .inr (.inr ⟨h, Bool.not_eq_true _ ▸ hplain, rfl⟩)

/-- What is written for a character leaves nothing escaped. -/
theorem not_escapes_write (c : Char) (before : Text) (h : ¬ Escapes before) :
    ¬ Escapes (before ++ style.write c) := by
  obtain ⟨letter, -, hwrite⟩ | ⟨hnone, -, hwrite⟩ | ⟨-, -, hwrite⟩ := style.write_cases c
  · have hsplit : before ++ ['\\', letter] = before ++ ['\\'] ++ [letter] := by simp
    rw [hwrite, hsplit]
    by_cases hletter : letter = '\\'
    · rw [hletter, escapes_backslash, not_not, escapes_backslash]
      exact h
    · exact not_escapes_concat _ hletter
  · rw [hwrite]
    exact not_escapes_concat _ (ne_backslash hnone)
  · rw [hwrite]
    exact not_escapes_flatMap (fun unit before _ => not_escapes_unitEscape before unit) _ h

/-- What holds of letters, of characters that stand for themselves and in the escapes of code units
holds of every character that is written. -/
theorem forall_mem_text {p : Char → Prop} (hletters : ∀ entry ∈ style.letters, p entry.2)
    (hplain : ∀ c, style.plain c = true → p c) (hunit : ∀ unit, ∀ c ∈ unitEscape unit, p c)
    (t : Text) : ∀ c ∈ t.flatMap style.write, p c := by
  intro c hc
  obtain ⟨d, -, hc⟩ := List.mem_flatMap.1 hc
  obtain ⟨letter, hlookup, hwrite⟩ | ⟨-, hd, hwrite⟩ | ⟨-, -, hwrite⟩ := style.write_cases d
  · rw [hwrite] at hc
    rcases List.mem_cons.1 hc with rfl | hc
    · exact hunit 0 _ List.mem_cons_self
    · rw [List.mem_singleton.1 hc]
      exact hletters _ (mem_of_lookup hlookup)
  · rw [hwrite] at hc
    rw [List.mem_singleton.1 hc]
    exact hplain d hd
  · rw [hwrite] at hc
    obtain ⟨unit, -, hc⟩ := List.mem_flatMap.1 hc
    exact hunit unit c hc

theorem not_escapes_text (t : Text) : ¬ Escapes (t.flatMap style.write) :=
  not_escapes_flatMap not_escapes_write t not_escapes_nil

/-- A character that has a letter is escaped wherever it stands, unless the escapes themselves are
made of it. -/
theorem escapes_of_letter {t before after : Text} {c : Char}
    (h : t.flatMap style.write = before ++ c :: after)
    (hletter : (style.letters.lookup c).isSome = true) (hbackslash : c ≠ '\\')
    (hunit : ∀ unit, c ∉ unitEscape unit) : Escapes before := by
  obtain ⟨done, d, later, left, right, -, hd, rfl, -⟩ := exists_written h
  obtain ⟨letter, -, hwrite⟩ | ⟨hnone, -, hwrite⟩ | ⟨-, -, hwrite⟩ := style.write_cases d
  · -- the letter of an escape: only its backslash is before it
    rw [hwrite] at hd
    obtain ⟨rfl, hc⟩ | ⟨left', rfl, hleft⟩ := List.cons_eq_append_iff.1 hd
    · exact absurd (List.cons.inj hc).1 hbackslash
    · obtain ⟨rfl, -⟩ := List.append_eq_singleton_iff.1 hleft.symm |>.resolve_right (by simp)
      exact (escapes_backslash _).2 (not_escapes_text done)
  · -- a character that stands for itself has no letter
    rw [hwrite] at hd
    have hcd : c ∈ [d] := hd ▸ List.mem_append_right left List.mem_cons_self
    rw [List.mem_singleton.1 hcd, hnone] at hletter
    nomatch hletter
  · rw [hwrite] at hd
    have hmem : c ∈ (utf16 d).flatMap unitEscape :=
      hd ▸ List.mem_append_right left List.mem_cons_self
    obtain ⟨unit, -, hmem⟩ := List.mem_flatMap.1 hmem
    exact absurd hmem (hunit unit)

/-- An unescaped backslash with a `u` after it is the escape of a code unit. -/
theorem unit_of_not_escapes {t before after : Text}
    (h : t.flatMap style.write = before ++ '\\' :: 'u' :: after) (hbefore : ¬ Escapes before) :
    ∃ c ∈ t, style.letters.lookup c = none ∧ ∃ unit ∈ utf16 c, codeUnit? after = some unit := by
  obtain ⟨done, c, later, left, right, ht, hc, rfl, hafter⟩ := exists_written h
  have hmem : c ∈ t := ht ▸ List.mem_append_right done List.mem_cons_self
  obtain ⟨letter, hlookup, hwrite⟩ | ⟨hnone, -, hwrite⟩ | ⟨hnone, -, hwrite⟩ := style.write_cases c
  · -- the backslash of the escape has its letter after it, and a second one is escaped
    rw [hwrite] at hc
    obtain ⟨rfl, hright⟩ | ⟨left', rfl, hleft⟩ := List.cons_eq_append_iff.1 hc
    · obtain rfl := (List.cons.inj hright).2
      obtain ⟨rfl, -⟩ := List.cons.inj hafter
      exact absurd rfl (style.unit _ (mem_of_lookup hlookup))
    · obtain ⟨rfl, -⟩ := List.append_eq_singleton_iff.1 hleft.symm |>.resolve_right (by simp)
      exact absurd ((escapes_backslash _).2 (not_escapes_text done)) hbefore
  · rw [hwrite] at hc
    have hcd : '\\' ∈ [c] := hc ▸ List.mem_append_right left List.mem_cons_self
    exact absurd (List.mem_singleton.1 hcd).symm (ne_backslash hnone)
  · rw [hwrite] at hc
    obtain ⟨units, unit, others, u, v, hunits, hunit, rfl, rfl⟩ := exists_written hc
    have hmemUnit : unit ∈ utf16 c := hunits ▸ List.mem_append_right units List.mem_cons_self
    obtain ⟨rfl, rfl⟩ := eq_nil_of_unitEscape hunit
    refine ⟨c, hmem, hnone, unit, hmemUnit, ?_⟩
    rw [List.cons_append, List.cons_append] at hafter
    rw [(List.cons.inj hafter).2, List.append_assoc]
    exact codeUnit?_upperHex4 (lt_of_mem_utf16 hmemUnit) _

end LiteralStyle

/-! ## The letters of literals -/

/-- The characters that have a letter in every literal. -/
def literalLetters : List (Char × Char) :=
  [('\\', '\\'), ('"', '"'), ('\'', '\''), ('\n', 'n'), ('\r', 'r'), ('\t', 't'), ('\x08', 'b'),
    ('\x0c', 'f')]

/-- Other characters are escaped only when they are control characters. -/
theorem literalEscape?_eq (c : Char) : literalEscape? c =
    match literalLetters.lookup c with
    | some letter => some ['\\', letter]
    | none => if isControl c then some (unitEscape c.toNat) else none := by
  cases h : literalLetters.lookup c with
  | some letter =>
    obtain ⟨before, after, hletters, -⟩ := List.lookup_eq_some_iff.1 h
    have hmem : (c, letter) ∈ literalLetters :=
      hletters ▸ List.mem_append_right before List.mem_cons_self
    have hall : ∀ entry ∈ literalLetters, literalEscape? entry.1 = some ['\\', entry.2] := by decide
    exact hall (c, letter) hmem
  | none =>
    have hquote : c ≠ '\'' := by
      rintro rfl
      nomatch h
    have hletter : escapeLetter? c = none := by
      unfold escapeLetter?
      split
      case h_8 => rfl
      all_goals nomatch h
    unfold literalEscape?
    rw [if_neg hquote, hletter]
    rfl

theorem isControl_of_isHexDigit {c : Char} (h : Number.isHexDigit c = true) :
    isControl c = false := by
  obtain ⟨hlow, hhigh⟩ := Number.toNat_of_isHexDigit h
  have hzero : '0'.toNat = 0x30 := rfl
  have hf : 'f'.toNat = 0x66 := rfl
  simp only [isControl, Bool.or_eq_false_iff, Bool.and_eq_false_iff, decide_eq_false_iff_not]
  omega

theorem toNat_of_isControl {c : Char} (h : isControl c = true) : c.toNat < 0xA0 := by
  simp only [isControl, Bool.or_eq_true, Bool.and_eq_true, decide_eq_true_eq] at h
  omega

/-- A control character is one code unit. -/
theorem flatMap_unitEscape {c : Char} (h : isControl c = true) :
    (utf16 c).flatMap unitEscape = unitEscape c.toNat := by
  have hlt := toNat_of_isControl h
  rw [utf16_of_lt (by omega), List.flatMap_singleton]

end SourcePreprocessor.Text
