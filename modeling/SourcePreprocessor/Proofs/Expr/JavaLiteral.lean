import SourcePreprocessor.Proofs.Expr.RoundTrip
import SourcePreprocessor.Proofs.Text.JavaText

/-!
# Java's escapes in the literals of expressions

Expressions know every escape that is written for Java. But a code in their literals stands for a
character and not for a code unit, and the halves of a pair are no characters. So a text that is
written for Java is a literal of expressions exactly when each of its characters is one code unit.

> `stringBody_escapeJava`: such a text is read as itself, whatever follows it;
> `stringBody_javaChar_pair`: of a character of two code units the first half is refused;
> `evaluate_escapeJava`: so the literal has the value of the text, or is refused at its first pair.
-/

namespace SourcePreprocessor

open Text

theorem codeEscape?_upperHex4 {unit : Nat} (h : unit < 0x10000) :
    ∃ d₁ d₂ d₃ d₄, Number.upperHex4 unit = [d₁, d₂, d₃, d₄] ∧
      codeEscape? d₁ d₂ d₃ d₄ = scalar? unit := by
  have hcode := codeEscape?_of_hex (Number.length_upperHex4 h) fun d =>
    Number.isHexDigit_of_mem_upperHex4
  rwa [Number.ofHexDigits_upperHex4] at hcode

/-- The escape of a code unit is read as the character of its code. -/
theorem stringBody_unitEscape {unit : Nat} (h : unit < 0x10000) {c : Char}
    (hc : scalar? unit = some c) (rest : Text) :
    stringBody (unitEscape unit ++ rest) = .push c 6 (stringBody rest) := by
  obtain ⟨d₁, d₂, d₃, d₄, hdigits, hcode⟩ := codeEscape?_upperHex4 h
  rw [unitEscape, hdigits]
  show stringBody ('\\' :: 'u' :: d₁ :: d₂ :: d₃ :: d₄ :: rest) = _
  rw [stringBody, hcode, hc]

/-- The escape of a code unit that is no character is refused. -/
theorem stringBody_unitEscape_half {unit : Nat} (h : unit < 0x10000) (hnone : scalar? unit = none)
    (rest : Text) : stringBody (unitEscape unit ++ rest) = .error .unknownEscape 6 := by
  obtain ⟨d₁, d₂, d₃, d₄, hdigits, hcode⟩ := codeEscape?_upperHex4 h
  rw [unitEscape, hdigits]
  show stringBody ('\\' :: 'u' :: d₁ :: d₂ :: d₃ :: d₄ :: rest) = _
  rw [stringBody, hcode, hnone]

/-- A character of one code unit is read from what it is written as for Java. -/
theorem stringBody_javaChar {c : Char} (h : c.toNat < 0x10000) (rest : Text) :
    stringBody (javaChar c ++ rest) = .push c (javaChar c).length (stringBody rest) := by
  rw [javaChar_eq_write]
  obtain ⟨letter, hlookup, hwrite⟩ | ⟨hnone, -, hwrite⟩ | ⟨-, -, hwrite⟩ := javaStyle.write_cases c
  · -- the letters of Java's literals are letters of expressions too
    have hletters : ∀ entry ∈ literalLetters,
        stringBody ('\\' :: entry.2 :: rest) = .push entry.1 2 (stringBody rest) := by
      simp only [literalLetters, List.forall_mem_cons]
      exact ⟨rfl, rfl, rfl, rfl, rfl, rfl, rfl, rfl, nofun⟩
    rw [hwrite]
    exact hletters _ (LiteralStyle.mem_of_lookup hlookup)
  · have hquote : c ≠ '"' := by
      rintro rfl
      nomatch hnone
    rw [hwrite]
    exact stringBody_cons hquote (LiteralStyle.ne_backslash hnone) rest
  · rw [hwrite, utf16_of_lt h, List.flatMap_singleton, stringBody_unitEscape h (scalar?_toNat c),
      length_unitEscape h]

/-- A text of such characters is read as itself, up to where it ends. -/
theorem stringBody_escapeJava {t : Text} (h : ∀ c ∈ t, c.toNat < 0x10000) (rest : Text) :
    stringBody (escapeJava t ++ rest) = ⟨(stringBody rest).result.map (t ++ ·),
      (stringBody rest).length + (escapeJava t).length⟩ := by
  induction t with
  | nil =>
    show stringBody rest = ⟨(stringBody rest).result.map _, (stringBody rest).length⟩
    cases stringBody rest with
    | mk result length => cases result <;> rfl
  | cons c t ih =>
    rw [List.forall_mem_cons] at h
    have hcons : escapeJava (c :: t) = javaChar c ++ escapeJava t := List.flatMap_cons
    rw [hcons, List.append_assoc, stringBody_javaChar h.1, ih h.2, List.length_append, Found.push]
    congr 1
    · cases (stringBody rest).result <;> rfl
    · dsimp only
      omega

/-- A character of two code units is written as the two. -/
theorem javaChar_pair {c : Char} (h : 0xFFFF < c.toNat) :
    javaChar c = (utf16 c).flatMap unitEscape := by
  rw [javaChar_eq_write]
  obtain ⟨letter, hlookup, -⟩ | ⟨-, hplain, -⟩ | ⟨-, -, hwrite⟩ := javaStyle.write_cases c
  · have hletters : ∀ entry ∈ literalLetters, entry.1.toNat ≤ 0xFFFF := by decide
    exact absurd h (Nat.not_lt.2 (hletters _ (LiteralStyle.mem_of_lookup hlookup)))
  · have hascii : c.toNat < 128 := of_decide_eq_true (Bool.and_eq_true_iff.1 hplain).1
    omega
  · exact hwrite

/-- Of a character of two code units the first half is refused. -/
theorem stringBody_javaChar_pair {c : Char} (h : 0xFFFF < c.toNat) : ∃ high low,
    utf16 c = [high, low] ∧ javaChar c = unitEscape high ++ unitEscape low ∧
      ∀ rest, stringBody (javaChar c ++ rest) = .error .unknownEscape (unitEscape high).length := by
  have hutf16 : utf16 c =
      [0xD800 + (c.toNat - 0x10000) / 0x400, 0xDC00 + (c.toNat - 0x10000) % 0x400] :=
    if_neg (Nat.not_lt.2 h)
  generalize hhigh : 0xD800 + (c.toNat - 0x10000) / 0x400 = high at hutf16
  have hlt := toNat_lt c
  have hunit : high < 0x10000 := by omega
  have hnone : scalar? high = none := by
    refine if_neg ?_
    rintro (hvalid | ⟨hvalid, -⟩)
    · omega
    · omega
  have hwrite := javaChar_pair h
  rw [hutf16, List.flatMap_cons, List.flatMap_singleton] at hwrite
  refine ⟨high, _, hutf16, hwrite, fun rest => ?_⟩
  rw [hwrite, List.append_assoc, stringBody_unitEscape_half hunit hnone, length_unitEscape hunit]

/-! ## Literals -/

/-- A literal whose body is read up to its end is the only lexeme. -/
theorem tokenize_literal {body t : Text}
    (h : stringBody (body ++ ['"']) = .ok t (body.length + 1)) :
    tokenize ('"' :: (body ++ ['"'])) = .ok [⟨.str t, 1⟩] := by
  have hscan := scan_lexeme rfl (lexemeAt_literal h) 1
  rw [List.append_nil] at hscan
  exact hscan

/-- What is wrong with the body of a literal is wrong with the literal. -/
theorem tokenize_of_stringBody {body : Text} {kind : LexErrorKind} {length : Nat}
    (h : stringBody body = .error kind length) :
    tokenize ('"' :: body) = .error ⟨kind, '"' :: body.take length, 1⟩ := by
  have hlexeme : lexemeAt '"' body = .error kind (length + 1) := by
    unfold lexemeAt
    rw [numeralLength_of_not_digit rfl (by decide), h]
    rfl
  unfold tokenize
  rw [scan]
  dsimp only
  rw [if_neg (by decide), hlexeme]
  rfl

/-- A literal alone is an expression, and its text is the value. -/
theorem evaluate_of_tokenize_str {source t : Text} {column : Nat}
    (h : tokenize source = .ok [⟨.str t, column⟩]) : evaluate source = .ok (.str t) := by
  have htier : Grammar.Tier (Grammar.tiersFrom 4) [⟨.str t, column⟩] (.value (.str t)) :=
    .unary (.primary .str)
  have hderives : Derives [⟨.str t, column⟩] (.value (.str t)) := htier.loosen (Nat.zero_le _)
  unfold evaluate
  rw [parse_of_derives h hderives]
  rfl

theorem evaluate_of_tokenize_error {source : Text} {error : LexError}
    (h : tokenize source = .error error) : evaluate source = .error (.parse (.lex error)) := by
  unfold evaluate parse lexemesOf
  rw [h]
  rfl

/-- A text that has a character of two code units has a first one. -/
theorem exists_first_pair {t : Text} (h : ∃ c ∈ t, 0xFFFF < c.toNat) : ∃ before c after,
    t = before ++ c :: after ∧ (∀ d ∈ before, d.toNat ≤ 0xFFFF) ∧ 0xFFFF < c.toNat := by
  have hsome : (t.find? fun c => 0xFFFF < c.toNat).isSome = true := by
    rw [List.find?_isSome]
    simpa only [decide_eq_true_eq] using h
  obtain ⟨c, hfind⟩ := Option.isSome_iff_exists.1 hsome
  obtain ⟨hc, before, after, ht, hbefore⟩ := List.find?_eq_some_iff_append.1 hfind
  refine ⟨before, c, after, ht, fun d hd => ?_, of_decide_eq_true hc⟩
  have hsmall := hbefore d hd
  rw [Bool.not_eq_true', decide_eq_false_iff_not] at hsmall
  exact Nat.not_lt.1 hsmall

/-- **What is written for Java is a literal of expressions, if each character is one code unit.**
Otherwise the literal is refused at the first character of two code units, whose first half is no
character. -/
theorem evaluate_escapeJava (t : Text) :
    ((∀ c ∈ t, c.toNat ≤ 0xFFFF) → evaluate ('"' :: (escapeJava t ++ ['"'])) = .ok (.str t)) ∧
    ((∃ c ∈ t, 0xFFFF < c.toNat) → ∃ before c after high low,
      t = before ++ c :: after ∧ (∀ d ∈ before, d.toNat ≤ 0xFFFF) ∧ utf16 c = [high, low] ∧
      evaluate ('"' :: (escapeJava t ++ ['"'])) = .error (.parse
        (.lex ⟨.unknownEscape, '"' :: (escapeJava before ++ unitEscape high), 1⟩))) := by
  refine ⟨fun h => ?_, fun h => ?_⟩
  · refine evaluate_of_tokenize_str (tokenize_literal ?_)
    rw [stringBody_escapeJava fun c hc => Nat.lt_succ_of_le (h c hc)]
    show Found.mk (.ok (t ++ [])) (1 + (escapeJava t).length) = .ok t _
    rw [List.append_nil, Nat.add_comm]
    rfl
  · -- what comes before the first pair is read, so that the literal fails within the pair
    obtain ⟨before, c, after, rfl, hbefore, hc⟩ := exists_first_pair h
    obtain ⟨high, low, hutf16, hwrite, hread⟩ := stringBody_javaChar_pair hc
    refine ⟨before, c, after, high, low, rfl, hbefore, hutf16, ?_⟩
    have hsplit : escapeJava (before ++ c :: after) ++ ['"'] =
        escapeJava before ++ (javaChar c ++ (escapeJava after ++ ['"'])) := by
      unfold escapeJava
      rw [List.flatMap_append, List.flatMap_cons, List.append_assoc, List.append_assoc]
    have hbody : stringBody (escapeJava (before ++ c :: after) ++ ['"']) =
        .error .unknownEscape ((unitEscape high).length + (escapeJava before).length) := by
      rw [hsplit, stringBody_escapeJava fun d hd => Nat.lt_succ_of_le (hbefore d hd), hread]
      rfl
    have htake : (escapeJava (before ++ c :: after) ++ ['"']).take
        ((unitEscape high).length + (escapeJava before).length) =
        escapeJava before ++ unitEscape high := by
      rw [hsplit, hwrite, List.append_assoc, ← List.append_assoc, Nat.add_comm,
        ← List.length_append, List.take_left]
    rw [evaluate_of_tokenize_error (tokenize_of_stringBody hbody), htake]

/-- A backslash, a line feed and characters beyond ASCII are read again; of a character of two code
units the first unit is refused. -/
theorem evaluate_escapeJava_half :
    (∀ c ∈ ['\\', '\n', '\u0085', 'é'], c.toNat ≤ 0xFFFF) ∧
      evaluate "\"\\\\\\n\\u0085\\u00E9\"".toList = .ok (.str ['\\', '\n', '\u0085', 'é']) ∧
      (∃ c ∈ ['é', '😀'], 0xFFFF < c.toNat) ∧
      evaluate "\"\\u00E9\\uD83D\\uDE00\"".toList =
        .error (.parse (.lex ⟨.unknownEscape, "\"\\u00E9\\uD83D".toList, 1⟩)) := by
  have hsmall : ∀ c ∈ ['\\', '\n', '\u0085', 'é'], c.toNat ≤ 0xFFFF := by
    simp only [List.forall_mem_cons]
    exact ⟨by decide, by decide, by decide, by decide, nofun⟩
  have hlarge : ∃ c ∈ ['é', '😀'], 0xFFFF < c.toNat := ⟨'😀', by decide, by decide⟩
  have hread : '"' :: (escapeJava ['\\', '\n', '\u0085', 'é'] ++ ['"']) =
      "\"\\\\\\n\\u0085\\u00E9\"".toList := by decide +kernel
  have hrefused : '"' :: (escapeJava ['é', '😀'] ++ ['"']) =
      "\"\\u00E9\\uD83D\\uDE00\"".toList := by decide +kernel
  refine ⟨hsmall, hread ▸ (evaluate_escapeJava _).1 hsmall, hlarge, ?_⟩
  obtain ⟨before, c, after, high, low, ht, hbefore, hutf16, herror⟩ :=
    (evaluate_escapeJava _).2 hlarge
  -- the text before the character is `é`: it has one code unit, and nothing else comes before
  obtain ⟨rfl, hc⟩ | ⟨before, rfl, hrest⟩ := List.cons_eq_append_iff.1 ht
  · obtain ⟨rfl, -⟩ := List.cons.inj hc
    nomatch hutf16
  · obtain ⟨rfl, hc⟩ | ⟨before, rfl, -⟩ := List.cons_eq_append_iff.1 hrest
    · obtain ⟨rfl, -⟩ := List.cons.inj hc
      obtain rfl : 0xD83D = high := (List.cons.inj hutf16).1
      rw [hrefused] at herror
      exact herror
    · exact absurd (hbefore '😀' (by simp)) (by decide)

end SourcePreprocessor
