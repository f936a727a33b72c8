import Mathlib.Computability.Language
import SourcePreprocessor.Proofs.Expr.Lexing

/-!
# The patterns of lexemes

What may stand in an expression is said here without a scan: a lexeme is a text of one of a few
languages, and at each place the longest one counts.

> `Pattern.lexical`: the numerals, words, text literals and symbols;
> `Longest L l rest`: where `l` stands with `rest` after it, it is the longest text of `L`.

The longest text of a concatenation is not in general made of the longest texts of its parts. It is
where no text of the second part starts with a character of the first part's longest one
(`Longest.mul`), and so it is in a numeral: a fraction starts with a point, which no digits contain,
and an exponent with a letter, which no mantissa contains.

> `exists_numeral`, `not_prefix_numeral`: `numeralLength` is the length of the longest numeral.
-/

namespace SourcePreprocessor

/-- A text between quotes, and the text that it reads as. -/
inductive Spells : (body t : Text) → Prop
  | nil : Spells [] []
  | plain {c : Char} {body t : Text} :
      c ≠ '"' → c ≠ '\\' → Spells body t → Spells (c :: body) (c :: t)
  | letter {letter c : Char} {body t : Text} :
      escaped? letter = some c → Spells body t → Spells ('\\' :: letter :: body) (c :: t)
  | code {d₁ d₂ d₃ d₄ c : Char} {body t : Text} :
      codeEscape? d₁ d₂ d₃ d₄ = some c → Spells body t →
        Spells ('\\' :: 'u' :: d₁ :: d₂ :: d₃ :: d₄ :: body) (c :: t)

namespace Pattern

/-- The texts of one character with the property. -/
def one (p : Char → Bool) : Language Char := {t | ∃ c, t = [c] ∧ p c = true}

/-- The texts, the empty one too, all of whose characters have the property. -/
def many (p : Char → Bool) : Language Char := {t | ∀ c ∈ t, p c = true}

/-- `[0-9]+` -/
def digits : Language Char := one Char.isDigit * many Char.isDigit

/-- `[+-]` -/
def sign : Language Char := one fun c => c = '+' || c = '-'

/-- `[eE][+-]?[0-9]+` -/
def exponent : Language Char := one (fun c => c = 'e' || c = 'E') * ((1 + sign) * digits)

/-- `0[xX][0-9a-fA-F]*` -/
def hexadecimal : Language Char :=
  one (· = '0') * (one (fun c => c = 'x' || c = 'X') * many Number.isHexDigit)

/-- `\.[0-9]*` -/
def fraction : Language Char := one (· = '.') * many Char.isDigit

/-- `[0-9]+(\.[0-9]*)?([eE][+-]?[0-9]+)?` -/
def decimal : Language Char := digits * (1 + fraction) * (1 + exponent)

/-- `\.[0-9]+([eE][+-]?[0-9]+)?` -/
def pointed : Language Char := one (· = '.') * digits * (1 + exponent)

def number : Language Char := hexadecimal + (decimal + pointed)

/-- `[a-zA-Z_$][a-zA-Z0-9_$.]*` -/
def word : Language Char := one isNameStart * many isNamePart

/-- A quote, characters and escapes, and a quote. -/
def literal : Language Char := {l | ∃ body t, Spells body t ∧ l = '"' :: body ++ ['"']}

def symbol : Language Char := Set.range Symbol.text

/-- The lexemes. -/
def lexical : Language Char := number + word + literal + symbol

/-! ## Membership -/

theorem mem_one_mul {p : Char → Bool} {L : Language Char} {t : Text} :
    t ∈ one p * L ↔ ∃ c u, t = c :: u ∧ p c = true ∧ u ∈ L := by
  rw [Language.mem_mul]
  constructor
  · rintro ⟨-, ⟨c, rfl, hc⟩, u, hu, rfl⟩
    exact ⟨c, u, rfl, hc, hu⟩
  · rintro ⟨c, u, rfl, hc, hu⟩
    exact ⟨[c], ⟨c, rfl, hc⟩, u, hu, rfl⟩

/-- A text of one character and a language starts where that character stands. -/
theorem prefix_one_mul {p : Char → Bool} {L : Language Char} {q t : Text} (hq : q ∈ one p * L)
    (hpre : q <+: t) :
    ∃ c u v, q = c :: u ∧ t = c :: v ∧ p c = true ∧ u ∈ L ∧ u <+: v := by
  obtain ⟨c, u, rfl, hc, hu⟩ := mem_one_mul.1 hq
  obtain ⟨v, rfl⟩ := hpre
  exact ⟨c, u, u ++ v, rfl, rfl, hc, hu, List.prefix_append u v⟩

theorem mem_optional {L : Language Char} {t : Text} : t ∈ 1 + L ↔ t = [] ∨ t ∈ L := by
  rw [Language.mem_add, Language.mem_one]

theorem mem_digits {t : Text} : t ∈ digits ↔ t ≠ [] ∧ ∀ c ∈ t, c.isDigit = true := by
  unfold digits
  rw [mem_one_mul]
  constructor
  · rintro ⟨c, u, rfl, hc, hu⟩
    exact ⟨List.cons_ne_nil c u, List.forall_mem_cons.2 ⟨hc, hu⟩⟩
  · rintro ⟨hne, ht⟩
    obtain ⟨c, u, rfl⟩ := List.exists_cons_of_ne_nil hne
    obtain ⟨hc, hu⟩ := List.forall_mem_cons.1 ht
    exact ⟨c, u, rfl, hc, hu⟩

theorem mem_word {t : Text} : t ∈ word ↔ isName t = true := by
  unfold word
  rw [mem_one_mul]
  cases t with
  | nil => simp [isName]
  | cons c u =>
    simp only [List.cons.injEq, isName, Bool.and_eq_true, List.all_eq_true]
    constructor
    · rintro ⟨c, u, ⟨rfl, rfl⟩, hc, hu⟩
      exact ⟨hc, hu⟩
    · rintro ⟨hc, hu⟩
      exact ⟨c, u, ⟨rfl, rfl⟩, hc, hu⟩

end Pattern

/-! ## Longest matches -/

/-- Where `l` stands with `rest` after it, it is the longest text of the language. -/
structure Longest (L : Language Char) (l rest : Text) : Prop where
  mem : l ∈ L
  le : ∀ p ∈ L, p <+: l ++ rest → p.length ≤ l.length

namespace Longest

variable {L M : Language Char} {l m rest : Text}

/-- A longest match in one language is one in another that has no longer match. -/
theorem of_le (h : Longest L l rest) (hmem : l ∈ M)
    (hle : ∀ p ∈ M, p <+: l ++ rest → p ∈ L ∨ p.length ≤ l.length) : Longest M l rest := by
  refine ⟨hmem, fun p hp hpre => ?_⟩
  rcases hle p hp hpre with hL | hlength
  · exact h.le p hL hpre
  · exact hlength

/-- A text has one longest match. -/
theorem unique (h : Longest L l rest) {rest' : Text} (h' : Longest L m rest')
    (heq : l ++ rest = m ++ rest') : l = m := by
  have hle : m.length ≤ l.length := h.le m h'.mem (heq ▸ List.prefix_append m rest')
  have hge : l.length ≤ m.length := h'.le l h.mem (heq ▸ List.prefix_append l rest)
  exact (List.append_inj heq (Nat.le_antisymm hge hle)).1

/-- A match that goes on with a character the longest one does not have is the longest one. -/
theorem eq_of_append_cons (h : Longest L l rest) {p u : Text} {c : Char} (hp : p ∈ L)
    (hpre : p ++ c :: u <+: l ++ rest) (hc : c ∉ l) : p = l := by
  have hpl : p <+: l ++ rest := (List.prefix_append p (c :: u)).trans hpre
  have hle : p.length ≤ l.length := h.le p hp hpl
  have hge : ¬p.length < l.length := by
    intro hlt
    have hpc : p ++ [c] <+: l ++ rest := by
      refine List.IsPrefix.trans ?_ hpre
      exact ⟨u, List.append_cons p c u ▸ rfl⟩
    have hpcl : p ++ [c] <+: l := by
      refine List.prefix_of_prefix_length_le hpc (List.prefix_append l rest) ?_
      rw [List.length_append]
      exact hlt
    exact hc (hpcl.subset (List.mem_append_right p (List.mem_singleton_self c)))
  exact (List.prefix_of_prefix_length_le hpl (List.prefix_append l rest) hle).eq_of_length
    (by omega)

/-- The longest match of a concatenation, whose second part never starts with a character of the
first part's longest match. -/
theorem mul (hl : Longest L l (m ++ rest)) (hm : Longest M m rest)
    (hstart : ∀ c u, c :: u ∈ M → c ∉ l) : Longest (L * M) (l ++ m) rest := by
  refine ⟨Language.append_mem_mul hl.mem hm.mem, fun p hp hpre => ?_⟩
  obtain ⟨a, ha, b, hb, rfl⟩ := Language.mem_mul.1 hp
  rw [List.append_assoc] at hpre
  rw [List.length_append, List.length_append]
  cases b with
  | nil =>
    rw [List.append_nil] at hpre
    have hle := hl.le a ha hpre
    rw [List.length_nil]
    omega
  | cons c u =>
    obtain rfl := hl.eq_of_append_cons ha hpre (hstart c u hb)
    have hle := hm.le (c :: u) hb ((List.prefix_append_right_inj a).1 hpre)
    omega

/-- Where the second part has no match, the concatenation has none. -/
theorem not_prefix_mul (hl : Longest L l rest) (hm : ∀ p ∈ M, ¬p <+: rest)
    (hstart : ∀ c u, c :: u ∈ M → c ∉ l) : ∀ p ∈ L * M, ¬p <+: l ++ rest := by
  intro p hp hpre
  obtain ⟨a, ha, b, hb, rfl⟩ := Language.mem_mul.1 hp
  cases b with
  | nil => exact hm [] hb List.nil_prefix
  | cons c u =>
    obtain rfl := hl.eq_of_append_cons ha hpre (hstart c u hb)
    exact hm (c :: u) hb ((List.prefix_append_right_inj a).1 hpre)

/-- A first part of one character has no shorter match. -/
theorem cons {p : Char → Bool} {c : Char} (hc : p c = true) (h : Longest L l rest) :
    Longest (Pattern.one p * L) (c :: l) rest := by
  refine ⟨Pattern.mem_one_mul.2 ⟨c, l, rfl, hc, h.mem⟩, fun q hq hpre => ?_⟩
  obtain ⟨d, u, v, rfl, hv, -, hu, huv⟩ := Pattern.prefix_one_mul hq hpre
  obtain ⟨-, rfl⟩ := List.cons.inj hv
  exact Nat.succ_le_succ (h.le u hu huv)

theorem optional (h : Longest L l rest) : Longest (1 + L) l rest := by
  refine h.of_le (Pattern.mem_optional.2 (.inr h.mem)) fun p hp _ => ?_
  rcases Pattern.mem_optional.1 hp with rfl | hp
  · exact .inr (Nat.zero_le _)
  · exact .inl hp

end Longest

theorem longest_optional_nil {L : Language Char} {rest : Text} (h : ∀ p ∈ L, ¬p <+: rest) :
    Longest (1 + L) [] rest := by
  refine ⟨Pattern.mem_optional.2 (.inl rfl), fun p hp hpre => ?_⟩
  rcases Pattern.mem_optional.1 hp with rfl | hp
  · exact Nat.le_refl 0
  · exact absurd hpre (h p hp)

theorem longest_one {p : Char → Bool} {c : Char} (hc : p c = true) (rest : Text) :
    Longest (Pattern.one p) [c] rest := by
  refine ⟨⟨c, rfl, hc⟩, ?_⟩
  rintro - ⟨d, rfl, -⟩ -
  exact Nat.le_refl 1

theorem longest_many (p : Char → Bool) (t : Text) :
    Longest (Pattern.many p) (t.takeWhile p) (t.dropWhile p) := by
  refine ⟨fun c hc => List.mem_takeWhile_imp hc, fun q hq hpre => ?_⟩
  rw [List.takeWhile_append_dropWhile] at hpre
  obtain ⟨u, rfl⟩ := hpre
  rw [List.takeWhile_append_of_pos hq, List.length_append]
  exact Nat.le_add_right _ _

open Pattern

/-! ## Numerals -/

theorem longest_digits {t : Text} (h : digitCount t ≠ 0) :
    Longest digits (t.takeWhile Char.isDigit) (t.dropWhile Char.isDigit) := by
  refine (longest_many Char.isDigit t).of_le ?_ fun p hp _ => .inl (mem_digits.1 hp).2
  exact mem_digits.2 ⟨fun hnil => h (congrArg List.length hnil), (longest_many _ t).mem⟩

theorem not_prefix_digits {t : Text} (h : digitCount t = 0) : ∀ p ∈ digits, ¬p <+: t := by
  intro p hp hpre
  obtain ⟨hne, hp⟩ := mem_digits.1 hp
  have hle := (longest_many Char.isDigit t).le p hp
    (by rwa [List.takeWhile_append_dropWhile])
  have hpos := List.length_pos_iff.2 hne
  unfold digitCount at h
  omega

/-- The sign that may stand in an exponent, and the length of the exponent with it. -/
theorem exists_sign {e : Char} (he : (e = 'e' || e = 'E') = true) (t : Text) :
    ∃ s rest, t = s ++ rest ∧ Longest (1 + sign) s rest ∧
      exponentLength (e :: t) =
        if digitCount rest = 0 then 0 else 1 + s.length + digitCount rest := by
  have hnone : (∀ c u, t = c :: u → (c = '+' || c = '-') = false) → Longest (1 + sign) [] t := by
    intro h
    refine longest_optional_nil ?_
    rintro - ⟨c, rfl, hc⟩ ⟨u, rfl⟩
    exact absurd hc (Bool.eq_false_iff.1 (h c u rfl))
  cases t with
  | nil => exact ⟨[], [], rfl, hnone nofun, if_pos he⟩
  | cons c u =>
    cases hc : (c = '+' || c = '-') with
    | true =>
      refine ⟨[c], u, rfl, (longest_one hc u).optional, ?_⟩
      simp only [exponentLength, he, hc, if_true]
      rfl
    | false =>
      refine ⟨[], c :: u, rfl, hnone ?_, ?_⟩
      · rintro d v ⟨⟩
        exact hc
      · simp only [exponentLength, he, hc, Bool.false_eq_true, if_true, if_false]
        rfl

/-- No digit is a sign. -/
theorem not_mem_sign {s : Text} (hs : s ∈ 1 + sign) {c : Char} (hc : c.isDigit = true) : c ∉ s := by
  rcases mem_optional.1 hs with rfl | ⟨d, rfl, hd⟩
  · exact List.not_mem_nil
  · rw [List.mem_singleton]
    rintro rfl
    simp only [Bool.or_eq_true, decide_eq_true_eq] at hd
    rcases hd with rfl | rfl <;> nomatch hc

theorem isDigit_of_mem_digits {c : Char} {u : Text} (h : c :: u ∈ digits) : c.isDigit = true :=
  (mem_digits.1 h).2 c List.mem_cons_self

/-- `exponentLength` is the length of the longest exponent, or zero. -/
theorem exists_exponent (t : Text) :
    ∃ l rest, t = l ++ rest ∧ l.length = exponentLength t ∧ Longest (1 + exponent) l rest := by
  have hnone : exponentLength t = 0 → (∀ p ∈ exponent, ¬p <+: t) →
      ∃ l rest, t = l ++ rest ∧ l.length = exponentLength t ∧ Longest (1 + exponent) l rest :=
    fun hlength h => ⟨[], t, rfl, hlength.symm, longest_optional_nil h⟩
  cases t with
  | nil =>
    refine hnone rfl fun p hp hpre => ?_
    obtain ⟨c, u, v, -, hv, -⟩ := prefix_one_mul hp hpre
    nomatch hv
  | cons e t =>
    cases he : (e = 'e' || e = 'E') with
    | false =>
      refine hnone (if_neg (Bool.eq_false_iff.1 he)) fun p hp hpre => ?_
      obtain ⟨c, u, v, -, hv, hc, -⟩ := prefix_one_mul hp hpre
      obtain ⟨rfl, -⟩ := List.cons.inj hv
      exact Bool.eq_false_iff.1 he hc
    | true =>
      obtain ⟨s, rest, rfl, hs, hlength⟩ := exists_sign he t
      have hstart : ∀ c u, c :: u ∈ digits → c ∉ s :=
        fun c u h => not_mem_sign hs.mem (isDigit_of_mem_digits h)
      by_cases hcount : digitCount rest = 0
      · rw [if_pos hcount] at hlength
        refine hnone hlength fun p hp hpre => ?_
        obtain ⟨c, u, v, -, hv, -, hu, huv⟩ := prefix_one_mul hp hpre
        obtain ⟨-, rfl⟩ := List.cons.inj hv
        exact hs.not_prefix_mul (not_prefix_digits hcount) hstart u hu huv
      · rw [if_neg hcount] at hlength
        have hdigits := longest_digits hcount
        rw [← List.takeWhile_append_dropWhile (p := Char.isDigit) (l := rest)] at hs
        refine ⟨e :: (s ++ rest.takeWhile Char.isDigit), rest.dropWhile Char.isDigit, ?_, ?_,
          ((hs.mul hdigits hstart).cons he).optional⟩
        · rw [List.cons_append, List.append_assoc, List.takeWhile_append_dropWhile]
        · rw [hlength, List.length_cons, List.length_append]
          unfold digitCount
          omega

/-- The part of a numeral that stands before an exponent. -/
def Pattern.mantissa : Language Char := digits * (1 + fraction) + one (· = '.') * digits

theorem decimal_add_pointed : decimal + pointed = mantissa * (1 + exponent) := by
  unfold decimal pointed mantissa
  rw [add_mul]

theorem eq_point_of_mem_fraction {c : Char} {u : Text} (h : c :: u ∈ 1 + fraction) : c = '.' := by
  rcases mem_optional.1 h with hnil | h
  · nomatch hnil
  · obtain ⟨d, v, heq, hd, -⟩ := mem_one_mul.1 h
    obtain ⟨rfl, -⟩ := List.cons.inj heq
    exact of_decide_eq_true hd

theorem drop_digitCount (t : Text) : t.drop (digitCount t) = t.dropWhile Char.isDigit := by
  have hdrop : (t.takeWhile Char.isDigit ++ t.dropWhile Char.isDigit).drop (digitCount t) =
      t.dropWhile Char.isDigit := List.drop_left
  rwa [List.takeWhile_append_dropWhile] at hdrop

/-- The fraction that may follow the digits of a mantissa, and the length of the mantissa then. -/
theorem exists_fraction {t : Text} (h : digitCount t ≠ 0) :
    ∃ f rest, t.dropWhile Char.isDigit = f ++ rest ∧ Longest (1 + fraction) f rest ∧
      mantissaLength t = digitCount t + f.length := by
  unfold mantissaLength
  rw [drop_digitCount]
  split
  · next rest heq =>
    refine ⟨'.' :: rest.takeWhile Char.isDigit, rest.dropWhile Char.isDigit, ?_,
      ((longest_many Char.isDigit rest).cons (decide_eq_true rfl)).optional, ?_⟩
    · rw [heq, List.cons_append, List.takeWhile_append_dropWhile]
    · rw [if_neg (by simp [h]), List.length_cons]
      unfold digitCount
      omega
  · next hpoint =>
    refine ⟨[], t.dropWhile Char.isDigit, rfl, longest_optional_nil fun p hp hpre => ?_, rfl⟩
    obtain ⟨c, u, v, -, hv, hc, -⟩ := prefix_one_mul hp hpre
    obtain rfl : c = '.' := of_decide_eq_true hc
    exact hpoint v hv

theorem eq_letter_of_mem_exponent {c : Char} {u : Text} (h : c :: u ∈ 1 + exponent) :
    c = 'e' ∨ c = 'E' := by
  rcases mem_optional.1 h with hnil | h
  · nomatch hnil
  · obtain ⟨d, v, heq, hd, -⟩ := mem_one_mul.1 h
    obtain ⟨rfl, -⟩ := List.cons.inj heq
    simpa using hd

theorem mantissaLength_point (t : Text) :
    mantissaLength ('.' :: t) = if digitCount t = 0 then 0 else 1 + digitCount t := by
  have hcount : digitCount ('.' :: t) = 0 := rfl
  unfold mantissaLength
  rw [hcount, List.drop_zero]
  simp

/-- There is a mantissa where digits stand, also after a point. -/
theorem mantissaLength_ne_zero_iff {t : Text} :
    mantissaLength t ≠ 0 ↔ digitCount t ≠ 0 ∨ ∃ u, t = '.' :: u ∧ digitCount u ≠ 0 := by
  constructor
  · intro h
    by_cases hcount : digitCount t = 0
    · unfold mantissaLength at h
      rw [hcount, List.drop_zero] at h
      split at h
      · next u => exact .inr ⟨u, rfl, fun hu => h (if_pos (by simp [hu]))⟩
      · exact absurd rfl h
    · exact .inl hcount
  · rintro (hcount | ⟨u, rfl, hcount⟩)
    · obtain ⟨f, rest, -, -, hlength⟩ := exists_fraction hcount
      omega
    · rw [mantissaLength_point, if_neg hcount]
      omega

theorem not_prefix_mantissa {t : Text} (h : mantissaLength t = 0) : ∀ p ∈ mantissa, ¬p <+: t := by
  intro p hp hpre
  refine mantissaLength_ne_zero_iff.2 ?_ h
  rcases hp with hp | hp
  · refine .inl fun hcount => ?_
    obtain ⟨d, hd, f, -, rfl⟩ := Language.mem_mul.1 hp
    exact not_prefix_digits hcount d hd ((List.prefix_append d f).trans hpre)
  · obtain ⟨c, u, v, -, rfl, hc, hu, huv⟩ := prefix_one_mul hp hpre
    obtain rfl : c = '.' := of_decide_eq_true hc
    exact .inr ⟨v, rfl, fun hcount => not_prefix_digits hcount u hu huv⟩

/-- `mantissaLength` is the length of the longest mantissa. -/
theorem exists_mantissa {t : Text} (h : mantissaLength t ≠ 0) :
    ∃ l rest, t = l ++ rest ∧ l.length = mantissaLength t ∧ Longest mantissa l rest := by
  -- digits with or without a fraction, or a point with digits: no text starts as both do
  rcases mantissaLength_ne_zero_iff.1 h with hcount | ⟨u, rfl, hcount⟩
  · obtain ⟨f, rest, hrest, hf, hlength⟩ := exists_fraction hcount
    have hdigits := longest_digits hcount
    have ht : t = t.takeWhile Char.isDigit ++ f ++ rest := by
      rw [List.append_assoc, ← hrest, List.takeWhile_append_dropWhile]
    rw [hrest] at hdigits
    have hlongest : Longest (digits * (1 + fraction)) (t.takeWhile Char.isDigit ++ f) rest := by
      refine hdigits.mul hf fun c v hc hmem => ?_
      obtain rfl := eq_point_of_mem_fraction hc
      nomatch List.mem_takeWhile_imp hmem
    refine ⟨t.takeWhile Char.isDigit ++ f, rest, ht, ?_, ?_⟩
    · rw [hlength, List.length_append]
      rfl
    · refine hlongest.of_le (.inl hlongest.mem) fun p hp hpre => .inl (hp.resolve_right ?_)
      intro hp
      rw [← ht] at hpre
      obtain ⟨c, v, w, -, rfl, hc, -⟩ := prefix_one_mul hp hpre
      obtain rfl : c = '.' := of_decide_eq_true hc
      exact hcount rfl
  · have hlongest := (longest_digits hcount).cons (p := (· = '.')) (decide_eq_true rfl)
    refine ⟨'.' :: u.takeWhile Char.isDigit, u.dropWhile Char.isDigit, ?_, ?_, ?_⟩
    · rw [List.cons_append, List.takeWhile_append_dropWhile]
    · rw [mantissaLength_point, if_neg hcount, List.length_cons]
      exact Nat.add_comm _ 1
    · refine hlongest.of_le (.inr hlongest.mem) fun p hp hpre => .inl (hp.resolve_left ?_)
      intro hp
      obtain ⟨d, hd, f, -, rfl⟩ := Language.mem_mul.1 hp
      exact not_prefix_digits rfl d hd ((List.prefix_append d f).trans hpre)

theorem startsHex_iff {t : Text} :
    startsHex t = true ↔ ∃ x u, t = '0' :: x :: u ∧ (x = 'x' || x = 'X') = true := by
  constructor
  · intro h
    unfold startsHex at h
    split at h
    · next u => exact ⟨'x', u, rfl, rfl⟩
    · next u => exact ⟨'X', u, rfl, rfl⟩
    · nomatch h
  · rintro ⟨x, u, rfl, hx⟩
    simp only [Bool.or_eq_true, decide_eq_true_eq] at hx
    rcases hx with rfl | rfl <;> rfl

theorem mem_hexadecimal {t : Text} : t ∈ hexadecimal ↔
    ∃ x u, t = '0' :: x :: u ∧ (x = 'x' || x = 'X') = true ∧
      ∀ c ∈ u, Number.isHexDigit c = true := by
  unfold hexadecimal
  rw [mem_one_mul]
  constructor
  · rintro ⟨c, v, rfl, hc, hv⟩
    obtain ⟨x, u, rfl, hx, hu⟩ := mem_one_mul.1 hv
    obtain rfl : c = '0' := of_decide_eq_true hc
    exact ⟨x, u, rfl, hx, hu⟩
  · rintro ⟨x, u, rfl, hx, hu⟩
    exact ⟨'0', x :: u, rfl, rfl, mem_one_mul.2 ⟨x, u, rfl, hx, hu⟩⟩

/-- Every character of the texts has the property. -/
def Pattern.Within (p : Char → Bool) (L : Language Char) : Prop := ∀ t ∈ L, ∀ c ∈ t, p c = true

namespace Pattern.Within

variable {p q : Char → Bool} {L M : Language Char}

theorem one (h : ∀ c, q c = true → p c = true) : Within p (Pattern.one q) := by
  rintro - ⟨c, rfl, hc⟩ d hd
  obtain rfl := List.mem_singleton.1 hd
  exact h d hc

theorem many (h : ∀ c, q c = true → p c = true) : Within p (Pattern.many q) :=
  fun _ ht c hc => h c (ht c hc)

theorem mul (hL : Within p L) (hM : Within p M) : Within p (L * M) := by
  intro _ ht
  obtain ⟨a, ha, b, hb, rfl⟩ := Language.mem_mul.1 ht
  exact List.forall_mem_append.2 ⟨hL a ha, hM b hb⟩

theorem add (hL : Within p L) (hM : Within p M) : Within p (L + M) :=
  fun t ht => ht.elim (hL t) (hM t)

theorem optional (hL : Within p L) : Within p (1 + L) := by
  refine add ?_ hL
  rintro - rfl
  nofun

end Pattern.Within

/-- Whether a mantissa may contain the character. -/
def isMantissaPart (c : Char) : Bool := c.isDigit || c = '.'

/-- Whether an exponent may contain the character. -/
def isExponentPart (c : Char) : Bool := c.isDigit || c = 'e' || c = 'E' || c = '+' || c = '-'

theorem within_digits {p : Char → Bool} (h : ∀ c : Char, c.isDigit = true → p c = true) :
    Within p digits := (Within.one h).mul (Within.many h)

theorem within_mantissa : Within isMantissaPart mantissa := by
  have hdigit : ∀ c : Char, c.isDigit = true → isMantissaPart c = true := by
    intro c hc
    simp [isMantissaPart, hc]
  have hpoint : Within isMantissaPart (one (· = '.')) :=
    Within.one fun c hc => by simp [isMantissaPart, of_decide_eq_true hc]
  exact ((within_digits hdigit).mul (hpoint.mul (Within.many hdigit)).optional).add
    (hpoint.mul (within_digits hdigit))

theorem within_exponent : Within isExponentPart exponent := by
  have hdigit : ∀ c : Char, c.isDigit = true → isExponentPart c = true := by
    intro c hc
    simp [isExponentPart, hc]
  refine (Within.one fun c hc => ?_).mul
    ((Within.optional (Within.one fun c hc => ?_)).mul (within_digits hdigit))
  all_goals
    simp only [Bool.or_eq_true, decide_eq_true_eq] at hc
    rcases hc with rfl | rfl <;> rfl

/-- No numeral in base ten contains the letter of a hexadecimal one. -/
theorem not_mem_of_baseTen {t : Text} (ht : t ∈ decimal + pointed) {x : Char}
    (hx : (x = 'x' || x = 'X') = true) : x ∉ t := by
  intro hmem
  rw [decimal_add_pointed] at ht
  obtain ⟨l, hl, e, he, rfl⟩ := Language.mem_mul.1 ht
  simp only [Bool.or_eq_true, decide_eq_true_eq] at hx
  rcases List.mem_append.1 hmem with hmem | hmem
  · have hpart := within_mantissa l hl x hmem
    rcases hx with rfl | rfl <;> nomatch hpart
  · have hpart := within_exponent.optional e he x hmem
    rcases hx with rfl | rfl <;> nomatch hpart

theorem startsHex_of_baseTen {t : Text} (ht : t ∈ decimal + pointed) : startsHex t = false := by
  rw [Bool.eq_false_iff]
  intro h
  obtain ⟨x, u, rfl, hx⟩ := startsHex_iff.1 h
  exact not_mem_of_baseTen ht hx (by simp)

theorem startsHex_of_hexadecimal {t p : Text} (hp : p ∈ hexadecimal) (hpre : p <+: t) :
    startsHex t = true := by
  obtain ⟨x, u, rfl, hx, -⟩ := mem_hexadecimal.1 hp
  obtain ⟨v, rfl⟩ := hpre
  exact startsHex_iff.2 ⟨x, u ++ v, rfl, hx⟩

/-- Where no numeral stands, `numeralLength` is zero. -/
theorem not_prefix_numeral {t : Text} (h : numeralLength t = 0) : ∀ p ∈ number, ¬p <+: t := by
  intro p hp hpre
  unfold numeralLength at h
  split at h
  · omega
  · next hhex =>
    split at h
    · next hmantissa =>
      rcases hp with hp | hp
      · exact hhex (startsHex_of_hexadecimal hp hpre)
      · rw [decimal_add_pointed] at hp
        obtain ⟨l, hl, e, -, rfl⟩ := Language.mem_mul.1 hp
        exact not_prefix_mantissa hmantissa l hl ((List.prefix_append l e).trans hpre)
    · omega

/-- `numeralLength` is the length of the longest numeral. -/
theorem exists_numeral {t : Text} (h : numeralLength t ≠ 0) :
    ∃ l rest, t = l ++ rest ∧ l.length = numeralLength t ∧ Longest number l rest := by
  unfold numeralLength at h ⊢
  split
  · next hhex =>
    obtain ⟨x, u, rfl, hx⟩ := startsHex_iff.1 hhex
    have hlongest : Longest hexadecimal ('0' :: x :: u.takeWhile Number.isHexDigit) _ :=
      ((longest_many Number.isHexDigit u).cons hx).cons (p := (· = '0')) rfl
    refine ⟨_, _, ?_, ?_, hlongest.of_le (.inl hlongest.mem) fun p hp hpre => ?_⟩
    · simp [List.takeWhile_append_dropWhile]
    · show (u.takeWhile Number.isHexDigit).length + 1 + 1 = _
      rw [Nat.add_comm 2]
      rfl
    · refine hp.imp_right fun hp => ?_
      -- a numeral in base ten goes no further than the zero
      have hx' := not_mem_of_baseTen hp hx
      match p with
      | [] => exact Nat.zero_le _
      | [_] => exact Nat.le_add_left 1 _
      | _ :: d :: q =>
        obtain ⟨rfl, -⟩ := List.cons_prefix_cons.1 (List.cons_prefix_cons.1 hpre).2
        exact absurd (List.mem_cons_of_mem _ List.mem_cons_self) hx'
  · next hhex =>
    rw [if_neg hhex] at h
    split
    · next hmantissa =>
      rw [if_pos hmantissa] at h
      exact absurd rfl h
    · next hmantissa =>
      obtain ⟨m, after, rfl, hm, hmlongest⟩ := exists_mantissa hmantissa
      rw [← hm, List.drop_left]
      obtain ⟨e, rest, rfl, he, helongest⟩ := exists_exponent after
      have hlongest : Longest (decimal + pointed) (m ++ e) rest := by
        rw [decimal_add_pointed]
        refine hmlongest.mul helongest fun c u hc hmem => ?_
        have hpart := within_mantissa m hmlongest.mem c hmem
        rcases eq_letter_of_mem_exponent hc with rfl | rfl <;> nomatch hpart
      refine ⟨m ++ e, rest, (List.append_assoc m e rest).symm, ?_,
        hlongest.of_le (.inr hlongest.mem) fun p hp hpre => .inl (hp.resolve_left ?_)⟩
      · rw [List.length_append, he]
      · intro hp
        rw [List.append_assoc] at hpre
        exact hhex (startsHex_of_hexadecimal hp hpre)

/-! ## Kinds of lexemes -/

/-- What a lexeme is. -/
inductive LexemeKind where
  | number
  | word
  | literal
  | symbol

/-- The lexemes of a kind. -/
def LexemeKind.language : LexemeKind → Language Char
  | .number => Pattern.number
  | .word => Pattern.word
  | .literal => Pattern.literal
  | .symbol => Pattern.symbol

theorem mem_lexical {t : Text} : t ∈ lexical ↔ ∃ kind : LexemeKind, t ∈ kind.language := by
  constructor
  · rintro (((h | h) | h) | h)
    · exact ⟨.number, h⟩
    · exact ⟨.word, h⟩
    · exact ⟨.literal, h⟩
    · exact ⟨.symbol, h⟩
  · rintro ⟨kind, h⟩
    cases kind with
    | number => exact .inl (.inl (.inl h))
    | word => exact .inl (.inl (.inr h))
    | literal => exact .inl (.inr h)
    | symbol => exact .inr h

/-- What a lexeme that starts with the character is. -/
def kindAt (c : Char) : LexemeKind :=
  if isMantissaPart c then .number
  else if isNameStart c then .word
  else if c = '"' then .literal
  else .symbol

theorem isMantissaPart_of_isNameStart {c : Char} (h : isNameStart c = true) :
    isMantissaPart c = false := by
  have hpoint : c ≠ '.' := by
    rintro rfl
    nomatch h
  simp [isMantissaPart, isDigit_of_isNameStart h, hpoint]

/-- The first character of a numeral is a digit or a point. -/
theorem exists_start_of_mem_number {t : Text} (h : t ∈ number) :
    ∃ c u, t = c :: u ∧ isMantissaPart c = true := by
  rcases h with h | h
  · obtain ⟨x, u, rfl, -, -⟩ := mem_hexadecimal.1 h
    exact ⟨'0', x :: u, rfl, rfl⟩
  · rw [decimal_add_pointed] at h
    obtain ⟨l, hl, e, -, rfl⟩ := Language.mem_mul.1 h
    cases l with
    | nil => exact absurd List.nil_prefix (not_prefix_mantissa (t := []) rfl [] hl)
    | cons c u => exact ⟨c, u ++ e, rfl, within_mantissa _ hl c List.mem_cons_self⟩

/-- The first character of a lexeme tells its kind. -/
theorem exists_start {kind : LexemeKind} {t : Text} (h : t ∈ kind.language) :
    ∃ c u, t = c :: u ∧ kindAt c = kind := by
  cases kind with
  | number =>
    obtain ⟨c, u, rfl, hc⟩ := exists_start_of_mem_number h
    exact ⟨c, u, rfl, if_pos hc⟩
  | word =>
    obtain ⟨c, u, rfl, hc, -⟩ := mem_one_mul.1 h
    refine ⟨c, u, rfl, ?_⟩
    simp [kindAt, isMantissaPart_of_isNameStart hc, hc]
  | literal =>
    obtain ⟨body, t, -, rfl⟩ := h
    exact ⟨'"', body ++ ['"'], rfl, rfl⟩
  | symbol =>
    obtain ⟨s, rfl⟩ := h
    obtain ⟨c, u, htext, hdigit, hpoint, hname, hquote, -⟩ := exists_symbolText s
    refine ⟨c, u, htext, ?_⟩
    simp [kindAt, isMantissaPart, hdigit, hpoint, hname, hquote]

/-- A lexeme is of one kind. -/
theorem kind_unique (kind other : LexemeKind) {t : Text} (h : t ∈ kind.language)
    (h' : t ∈ other.language) : kind = other := by
  obtain ⟨c, u, rfl, hc⟩ := exists_start h
  obtain ⟨d, v, heq, hd⟩ := exists_start h'
  obtain ⟨rfl, -⟩ := List.cons.inj heq
  exact hc.symm.trans hd

/-- A lexeme that stands at the start of a text is of the kind that the first character tells. -/
theorem mem_kindAt {c : Char} {rest p : Text} (hp : p ∈ lexical) (hpre : p <+: c :: rest) :
    p ∈ (kindAt c).language := by
  obtain ⟨kind, hp⟩ := mem_lexical.1 hp
  obtain ⟨d, u, rfl, hd⟩ := exists_start hp
  obtain ⟨rfl, -⟩ := List.cons_prefix_cons.1 hpre
  rw [hd]
  exact hp

/-- The longest text of one kind is the longest lexeme. -/
theorem longest_lexical (kind : LexemeKind) {l rest : Text} (h : Longest kind.language l rest) :
    Longest lexical l rest := by
  obtain ⟨c, u, rfl, hc⟩ := exists_start h.mem
  refine h.of_le (mem_lexical.2 ⟨kind, h.mem⟩) fun p hp hpre => .inl ?_
  rw [← hc]
  exact mem_kindAt hp hpre

/-- The longest lexeme is the longest text of its kind. -/
theorem longest_of_lexical (kind : LexemeKind) {l rest : Text} (h : Longest lexical l rest)
    (hl : l ∈ kind.language) : Longest kind.language l rest :=
  ⟨hl, fun p hp hpre => h.le p (mem_lexical.2 ⟨kind, hp⟩) hpre⟩

end SourcePreprocessor
