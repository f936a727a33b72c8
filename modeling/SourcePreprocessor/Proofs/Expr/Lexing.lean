import SourcePreprocessor.Expr.Lexer
import SourcePreprocessor.Proofs.Except
import SourcePreprocessor.Proofs.Number.RoundTrip

/-!
# Scanning text that was written

What a scan finds in a text depends on what follows it: a name goes on as long as name characters
do, and a bang before an equals sign is another symbol. The statements here therefore carry the text
that follows:

> `Scans t tokens rest`: with `rest` after it, `t` is scanned as the tokens, and the scan goes on at
> the start of `rest`.

Such statements compose (`Scans.append`), and there is one for each kind of token in the form it is
written in. Names and numerals have to be set apart from what follows by a character that no name
has (`Apart`), which covers the digits, points, exponents and glued letters that a numeral would
take too.
-/

namespace SourcePreprocessor

/-- With `rest` after it, the text is scanned as the tokens and the scan goes on after it. -/
def Scans (t : Text) (tokens : List Token) (rest : Text) : Prop :=
  ∀ column, ∃ lexemes : List Lexeme, lexemes.map (·.token) = tokens ∧
    scan 0 column (t ++ rest) = (scan 0 (column + t.length) rest).map (lexemes ++ ·)

theorem scans_nil (rest : Text) : Scans [] [] rest := by
  intro column
  refine ⟨[], rfl, ?_⟩
  show scan 0 column rest = (scan 0 column rest).map _
  cases scan 0 column rest <;> rfl

theorem Scans.append {t u rest : Text} {tokens others : List Token}
    (ht : Scans t tokens (u ++ rest)) (hu : Scans u others rest) :
    Scans (t ++ u) (tokens ++ others) rest := by
  intro column
  obtain ⟨ls, hls, hscan⟩ := ht column
  obtain ⟨ms, hms, hscan'⟩ := hu (column + t.length)
  refine ⟨ls ++ ms, ?_, ?_⟩
  · rw [List.map_append, hls, hms]
  · rw [List.append_assoc, hscan, hscan', List.length_append, ← Nat.add_assoc]
    cases scan 0 (column + t.length + u.length) rest with
    | error e => rfl
    | ok found => exact congrArg Except.ok (List.append_assoc ls ms found).symm

theorem scans_blank (rest : Text) : Scans [' '] [] rest := by
  intro column
  refine ⟨[], rfl, ?_⟩
  show scan 0 (column + 1) rest = (scan 0 (column + 1) rest).map _
  cases scan 0 (column + 1) rest <;> rfl

/-- The characters of a lexeme that was taken are passed over. -/
theorem scan_skip (t rest : Text) (column : Nat) :
    scan t.length column (t ++ rest) = scan 0 (column + t.length) rest := by
  induction t generalizing column with
  | nil => rfl
  | cons c t ih =>
    rw [List.length_cons, List.cons_append, scan, ih]
    congr 1
    omega

/-- What is found at the start of a text is its first lexeme, and the scan goes on after it. -/
theorem scan_lexeme {c : Char} {t rest : Text} {token : Token} (hskip : isSkipped c = false)
    (h : lexemeAt c (t ++ rest) = .ok token (t.length + 1)) (column : Nat) :
    scan 0 column (c :: t ++ rest) =
      (scan 0 (column + (c :: t).length) rest).map (⟨token, column⟩ :: ·) := by
  rw [List.cons_append, scan, hskip, h]
  show Except.map _ (scan t.length (column + 1) (t ++ rest)) = _
  rw [scan_skip, List.length_cons, Nat.add_right_comm, Nat.add_assoc]

theorem scans_lexeme {c : Char} {t rest : Text} {token : Token} (hskip : isSkipped c = false)
    (h : lexemeAt c (t ++ rest) = .ok token (t.length + 1)) : Scans (c :: t) [token] rest :=
  fun column => ⟨[⟨token, column⟩], rfl, scan_lexeme hskip h column⟩

/-! ## Characters -/

theorem isAlpha_iff {c : Char} : c.isAlpha = true ↔
    (65 ≤ c.toNat ∧ c.toNat ≤ 90) ∨ (97 ≤ c.toNat ∧ c.toNat ≤ 122) := by
  change (decide (65 ≤ c.val ∧ c.val ≤ 90) ||
    (decide (97 ≤ c.val) && decide (c.val ≤ 122))) = true ↔ _
  simp only [Bool.or_eq_true, Bool.and_eq_true, decide_eq_true_eq, UInt32.le_iff_toNat_le]
  rfl

theorem isDigit_iff {c : Char} : c.isDigit = true ↔ 48 ≤ c.toNat ∧ c.toNat ≤ 57 := by
  change (decide (48 ≤ c.val) && decide (c.val ≤ 57)) = true ↔ _
  simp only [Bool.and_eq_true, decide_eq_true_eq, UInt32.le_iff_toNat_le]
  rfl

theorem isNamePart_of_isDigit {c : Char} (h : c.isDigit = true) : isNamePart c = true := by
  simp [isNamePart, Char.isAlphanum, h]

theorem isNamePart_of_isNameStart {c : Char} (h : isNameStart c = true) : isNamePart c = true := by
  simp only [isNameStart, Bool.or_eq_true] at h
  simp only [isNamePart, Char.isAlphanum, Bool.or_eq_true]
  rcases h with (h | h) | h
  · exact .inl (.inl (.inl (.inl h)))
  · exact .inl (.inl (.inr h))
  · exact .inl (.inr h)

theorem isSkipped_of_isNamePart {c : Char} (h : isNamePart c = true) : isSkipped c = false := by
  simp only [isSkipped, Bool.or_eq_false_iff, decide_eq_false_iff_not]
  refine ⟨⟨⟨⟨?_, ?_⟩, ?_⟩, ?_⟩, ?_⟩
  all_goals
    rintro rfl
    revert h
    decide

theorem isDigit_of_isNameStart {c : Char} (h : isNameStart c = true) : c.isDigit = false := by
  simp only [isNameStart, Bool.or_eq_true, decide_eq_true_eq] at h
  rcases h with (h | rfl) | rfl
  · rw [isAlpha_iff] at h
    rw [← Bool.not_eq_true, isDigit_iff]
    omega
  · rfl
  · rfl

/-! ## Numerals -/

/-- No character of a name leads the text. -/
def Apart (rest : Text) : Prop := ∀ c t, rest = c :: t → isNamePart c = false

theorem takeWhile_of_apart {rest : Text} (h : Apart rest) {p : Char → Bool}
    (hp : ∀ c, p c = true → isNamePart c = true) : rest.takeWhile p = [] := by
  cases rest with
  | nil => rfl
  | cons c t =>
    have hc : p c = false := by
      rw [← Bool.not_eq_true]
      intro hpc
      have hpart := hp c hpc
      rw [h c t rfl] at hpart
      nomatch hpart
    rw [List.takeWhile_cons, hc]
    rfl

theorem digitCount_append {digits rest : Text} (hdigits : ∀ c ∈ digits, c.isDigit = true) :
    digitCount (digits ++ rest) = digits.length + digitCount rest := by
  unfold digitCount
  rw [List.takeWhile_append_of_pos hdigits, List.length_append]

theorem digitCount_of_apart {rest : Text} (h : Apart rest) : digitCount rest = 0 := by
  unfold digitCount
  rw [takeWhile_of_apart h fun c => isNamePart_of_isDigit]
  rfl

theorem exponentLength_of_apart {rest : Text} (h : Apart rest) : exponentLength rest = 0 := by
  cases rest with
  | nil => rfl
  | cons c t =>
    have hc := h c t rfl
    unfold exponentLength
    dsimp only
    rw [if_neg]
    simp only [Bool.or_eq_true, decide_eq_true_eq]
    rintro (rfl | rfl)
    · nomatch hc
    · nomatch hc

/-- Digits do not start a hexadecimal numeral unless the letter for one follows them. -/
theorem startsHex_append {digits : Text} (hne : digits ≠ [])
    (hdigits : ∀ c ∈ digits, c.isDigit = true) {rest : Text}
    (hrest : ∀ t, rest ≠ 'x' :: t ∧ rest ≠ 'X' :: t) :
    startsHex (digits ++ rest) = false := by
  have hx : ∀ x t, x.isDigit = false → (∀ t, rest ≠ x :: t) → digits ++ rest ≠ '0' :: x :: t := by
    intro x t hx hrest h
    -- the letter stands after the first digit: it follows the digits, or it is one of them
    match digits with
    | [] => exact hne rfl
    | [c] => exact hrest t (List.cons.inj h).2
    | c :: d :: more =>
      obtain ⟨-, h⟩ := List.cons.inj h
      obtain ⟨rfl, -⟩ := List.cons.inj h
      rw [hdigits d (by simp)] at hx
      nomatch hx
  unfold startsHex
  split
  · next h => exact absurd h (hx _ _ rfl fun t => (hrest t).1)
  · next h => exact absurd h (hx _ _ rfl fun t => (hrest t).2)
  · rfl

theorem ne_of_apart {rest : Text} (h : Apart rest) {c : Char} (hc : isNamePart c = true)
    (t : Text) : rest ≠ c :: t := by
  intro e
  rw [h c t e] at hc
  nomatch hc

/-- A numeral in base ten that stands apart has no exponent. -/
theorem numeralLength_of_mantissa {t rest : Text} (hhex : startsHex (t ++ rest) = false)
    (hmantissa : mantissaLength (t ++ rest) = t.length) (hne : t ≠ []) (h : Apart rest) :
    numeralLength (t ++ rest) = t.length := by
  unfold numeralLength
  rw [hhex, hmantissa, List.drop_left, exponentLength_of_apart h]
  simp [hne]

/-- Digits that stand apart are the numeral of an integer. -/
theorem numeralLength_digits {digits rest : Text} (hne : digits ≠ [])
    (hdigits : ∀ c ∈ digits, c.isDigit = true) (h : Apart rest) :
    numeralLength (digits ++ rest) = digits.length := by
  have hhex : startsHex (digits ++ rest) = false :=
    startsHex_append hne hdigits fun t => ⟨ne_of_apart h rfl t, ne_of_apart h rfl t⟩
  have hcount : digitCount (digits ++ rest) = digits.length := by
    rw [digitCount_append hdigits, digitCount_of_apart h, Nat.add_zero]
  refine numeralLength_of_mantissa hhex ?_ hne h
  unfold mantissaLength
  rw [hcount, List.drop_left]
  split
  · next t => exact absurd rfl (ne_of_apart h rfl t)
  · rfl

/-- Digits, a point and digits that stand apart are the numeral of a floating point number. -/
theorem numeralLength_point {whole fraction rest : Text} (hne : whole ≠ [])
    (hwhole : ∀ c ∈ whole, c.isDigit = true) (hfraction : ∀ c ∈ fraction, c.isDigit = true)
    (h : Apart rest) :
    numeralLength (whole ++ '.' :: fraction ++ rest) = (whole ++ '.' :: fraction).length := by
  have hhex : startsHex (whole ++ '.' :: fraction ++ rest) = false := by
    rw [List.append_assoc]
    exact startsHex_append hne hwhole fun t => ⟨nofun, nofun⟩
  have hcount : digitCount (whole ++ '.' :: fraction ++ rest) = whole.length := by
    rw [List.append_assoc, digitCount_append hwhole]
    rfl
  have hcount' : digitCount (fraction ++ rest) = fraction.length := by
    rw [digitCount_append hfraction, digitCount_of_apart h, Nat.add_zero]
  refine numeralLength_of_mantissa hhex ?_ (by simp) h
  unfold mantissaLength
  rw [hcount, List.append_assoc, List.drop_left]
  show (if (whole.length = 0 && digitCount (fraction ++ rest) = 0) = true then 0
    else whole.length + 1 + digitCount (fraction ++ rest)) = _
  rw [hcount', if_neg (by simp [hne]), List.length_append, List.length_cons]
  omega

/-! ## Tokens -/

/-- A numeral with nothing glued to it is one lexeme, with the token of the numeral. -/
theorem lexemeAt_numeral {c : Char} {t rest : Text} {token : Token}
    (hlength : numeralLength (c :: t ++ rest) = (c :: t).length)
    (hglued : rest.takeWhile spoilsNumeral = []) (htoken : numeralToken (c :: t) = .ok token) :
    lexemeAt c (t ++ rest) = .ok token (t.length + 1) := by
  rw [List.cons_append] at hlength
  unfold lexemeAt
  rw [hlength]
  dsimp only
  rw [if_pos (by simp)]
  unfold numeral
  rw [← List.cons_append, List.drop_left, hglued]
  dsimp only [List.length_nil]
  rw [if_pos rfl, List.take_left, htoken]
  rfl

theorem scans_numeral {t rest : Text} {token : Token}
    (hlength : numeralLength (t ++ rest) = t.length)
    (hstart : ∃ c u, t = c :: u ∧ c.isDigit = true) (htoken : numeralToken t = .ok token)
    (h : Apart rest) : Scans t [token] rest := by
  obtain ⟨c, u, rfl, hc⟩ := hstart
  refine scans_lexeme (isSkipped_of_isNamePart (isNamePart_of_isDigit hc))
    (lexemeAt_numeral hlength (takeWhile_of_apart h fun d hd => ?_) htoken)
  show (spoilsNumeral d || d = '.') = true
  rw [hd]
  rfl

theorem startsHex_of_digits {digits : Text} (hne : digits ≠ [])
    (hdigits : ∀ c ∈ digits, c.isDigit = true) : startsHex digits = false := by
  have h : startsHex (digits ++ []) = false :=
    startsHex_append hne hdigits fun t => ⟨nofun, nofun⟩
  rw [List.append_nil] at h
  exact h

/-- The digits of an integer are its token. -/
theorem scans_decimal {n : Nat} {m : Int64} (hm : m.toInt = n) {rest : Text} (h : Apart rest) :
    Scans (Number.decimal n) [.int m] rest := by
  have hne : Number.decimal n ≠ [] := Nat.toDigits_ne_nil
  have hdigits : ∀ c ∈ Number.decimal n, c.isDigit = true :=
    fun c => Number.isDigit_of_mem_decimal
  refine scans_numeral (numeralLength_digits hne hdigits h) (Number.exists_decimal n) ?_ h
  have hplain : (Number.decimal n).any (fun c => c = '.' || c = 'e' || c = 'E') = false := by
    rw [List.any_eq_false]
    intro c hc hspecial
    simp only [Bool.or_eq_true, decide_eq_true_eq] at hspecial
    have hdigit := hdigits c hc
    rcases hspecial with (rfl | rfl) | rfl <;> nomatch hdigit
  unfold numeralToken integerToken
  rw [startsHex_of_digits hne hdigits, hplain, Number.ofDigits_decimal,
    Number.narrow?_eq_some_iff.2 hm]
  rfl

/-- Digits, a point and digits are the token of the floating point number that they denote. -/
theorem scans_point {whole fraction rest : Text} (hne : whole ≠ [])
    (hwhole : ∀ c ∈ whole, c.isDigit = true) (hfraction : ∀ c ∈ fraction, c.isDigit = true)
    (h : Apart rest) :
    Scans (whole ++ '.' :: fraction) [.float (.ofNumeral false (whole ++ '.' :: fraction))]
      rest := by
  have hstart : ∃ c u, whole ++ '.' :: fraction = c :: u ∧ c.isDigit = true := by
    obtain ⟨c, u, rfl⟩ := List.exists_cons_of_ne_nil hne
    exact ⟨c, u ++ '.' :: fraction, rfl, hwhole c List.mem_cons_self⟩
  refine scans_numeral (numeralLength_point hne hwhole hfraction h) hstart ?_ h
  have hpoint : (whole ++ '.' :: fraction).any (fun c => c = '.' || c = 'e' || c = 'E') = true := by
    rw [List.any_append, List.any_cons]
    simp
  have hhex : startsHex (whole ++ '.' :: fraction) = false :=
    startsHex_append hne hwhole fun t => ⟨nofun, nofun⟩
  unfold numeralToken
  rw [hhex, hpoint]
  rfl

theorem numeralLength_of_not_digit {c : Char} (hdigit : c.isDigit = false) (hpoint : c ≠ '.')
    (rest : Text) : numeralLength (c :: rest) = 0 := by
  have hcount : digitCount (c :: rest) = 0 := by
    unfold digitCount
    rw [List.takeWhile_cons, hdigit]
    rfl
  have hmantissa : mantissaLength (c :: rest) = 0 := by
    unfold mantissaLength
    rw [hcount, List.drop_zero]
    split
    · next h => exact absurd (List.cons.inj h).1 hpoint
    · rfl
  have hhex : startsHex (c :: rest) = false := by
    unfold startsHex
    split
    · next h =>
      obtain ⟨rfl, -⟩ := List.cons.inj h
      nomatch hdigit
    · next h =>
      obtain ⟨rfl, -⟩ := List.cons.inj h
      nomatch hdigit
    · rfl
  unfold numeralLength
  rw [hhex, hmantissa]
  rfl

/-- A name with all the name characters after it is one lexeme. -/
theorem lexemeAt_word {c : Char} {t rest : Text} (hc : isNameStart c = true)
    (htake : (t ++ rest).takeWhile isNamePart = t) :
    lexemeAt c (t ++ rest) = .ok (nameToken (c :: t)) (t.length + 1) := by
  have hpoint : c ≠ '.' := by
    rintro rfl
    nomatch hc
  unfold lexemeAt
  rw [numeralLength_of_not_digit (isDigit_of_isNameStart hc) hpoint, htake]
  dsimp only
  rw [if_neg (by simp), if_pos hc]
  rfl

/-- A name that stands apart is its token, or a boolean. -/
theorem scans_word {name rest : Text} (hname : isName name = true) (h : Apart rest) :
    Scans name [nameToken name] rest := by
  match name with
  | [] => nomatch hname
  | c :: t =>
    rw [isName, Bool.and_eq_true, List.all_eq_true] at hname
    obtain ⟨hc, ht⟩ := hname
    have hpart := isNamePart_of_isNameStart hc
    have htake : (t ++ rest).takeWhile isNamePart = t := by
      rw [List.takeWhile_append_of_pos ht, takeWhile_of_apart h fun _ => id, List.append_nil]
    exact scans_lexeme (isSkipped_of_isNamePart hpart) (lexemeAt_word hc htake)

/-! ## Text literals -/

theorem scalar?_toNat (c : Char) : scalar? c.toNat = some c := by
  have hvalid : c.toNat.isValidChar := c.valid
  rw [scalar?, if_pos hvalid, Char.ofNat_toNat]

/-- Four hexadecimal digits stand for the character of their value. -/
theorem codeEscape?_of_hex {digits : Text} (hlength : digits.length = 4)
    (hhex : ∀ d ∈ digits, Number.isHexDigit d = true) :
    ∃ d₁ d₂ d₃ d₄, digits = [d₁, d₂, d₃, d₄] ∧
      codeEscape? d₁ d₂ d₃ d₄ = scalar? (Number.ofHexDigits digits) := by
  match digits, hlength with
  | [d₁, d₂, d₃, d₄], _ =>
    have hplus : d₁ ≠ '+' := by
      rintro rfl
      have hdigit := hhex '+' List.mem_cons_self
      nomatch hdigit
    refine ⟨d₁, d₂, d₃, d₄, rfl, ?_⟩
    unfold codeEscape?
    rw [if_neg hplus, if_pos (List.all_eq_true.2 hhex)]

theorem codeEscape?_hex4 {c : Char} (h : c.toNat < 0x10000) :
    ∃ d₁ d₂ d₃ d₄, Number.hex4 c.toNat = [d₁, d₂, d₃, d₄] ∧ codeEscape? d₁ d₂ d₃ d₄ = some c := by
  have hcode := codeEscape?_of_hex (Number.length_hex4 h) fun d => Number.isHexDigit_of_mem_hex4
  rwa [Number.ofHexDigits_hex4, scalar?_toNat] at hcode

/-- A character that neither closes a literal nor begins an escape stands for itself. -/
theorem stringBody_cons {c : Char} (hquote : c ≠ '"') (hslash : c ≠ '\\') (rest : Text) :
    stringBody (c :: rest) = .push c 1 (stringBody rest) := by
  rw [stringBody]
  · exact hquote
  all_goals
    intros
    contradiction

/-- Each character of a literal reads as itself. -/
theorem stringBody_quotedChar (c : Char) (rest : Text) :
    stringBody (Text.quotedChar c ++ rest) =
      .push c (Text.quotedChar c).length (stringBody rest) := by
  unfold Text.quotedChar
  -- a letter after the backslash, a code after it, or the character itself
  split
  · next letter h =>
    unfold Text.escapeLetter? at h
    split at h <;> cases h <;> rfl
  · next h =>
    split
    · next hcontrol =>
      have hsmall : c.toNat < 0x10000 := by
        simp only [Text.isControl, Bool.or_eq_true, Bool.and_eq_true, decide_eq_true_eq] at hcontrol
        omega
      obtain ⟨d₁, d₂, d₃, d₄, hdigits, hcode⟩ := codeEscape?_hex4 hsmall
      rw [hdigits]
      show stringBody ('\\' :: 'u' :: d₁ :: d₂ :: d₃ :: d₄ :: rest) = _
      rw [stringBody, hcode]
      rfl
    · have hquote : c ≠ '"' := by
        rintro rfl
        nomatch h
      have hslash : c ≠ '\\' := by
        rintro rfl
        nomatch h
      exact stringBody_cons hquote hslash rest

/-- What is written between the quotes of a literal reads as the text. -/
theorem stringBody_quoted (t rest : Text) :
    stringBody (t.flatMap Text.quotedChar ++ '"' :: rest) =
      .ok t ((t.flatMap Text.quotedChar).length + 1) := by
  induction t with
  | nil => rfl
  | cons c t ih =>
    rw [List.flatMap_cons, List.append_assoc, stringBody_quotedChar, ih, List.length_append]
    show Found.ok (c :: t) ((t.flatMap Text.quotedChar).length + 1 + (Text.quotedChar c).length) = _
    congr 1
    omega

theorem lexemeAt_literal {body t rest : Text}
    (h : stringBody (body ++ '"' :: rest) = .ok t (body.length + 1)) :
    lexemeAt '"' (body ++ ['"'] ++ rest) = .ok (.str t) ((body ++ ['"']).length + 1) := by
  unfold lexemeAt
  rw [numeralLength_of_not_digit rfl (by decide), List.append_assoc, List.singleton_append, h,
    List.length_append]
  rfl

/-- A literal is the token of its text. -/
theorem scans_quote (t rest : Text) : Scans (Text.quote t) [.str t] rest := by
  have hquote : Text.quote t = '"' :: (t.flatMap Text.quotedChar ++ ['"']) := rfl
  rw [hquote]
  exact scans_lexeme rfl (lexemeAt_literal (stringBody_quoted t rest))

/-! ## Symbols -/

/-- A symbol is found where no equals sign follows that would make it another one. -/
theorem symbolAt?_text (s : Symbol) {rest : Text} (h : ∀ t, rest ≠ '=' :: t) :
    symbolAt? (s.text ++ rest) = some s := by
  cases s
  -- the symbols that an equals sign would make longer
  case bang | less | greater =>
    cases rest with
    | nil => rfl
    | cons d t =>
      have hd : d ≠ '=' := by
        rintro rfl
        exact h t rfl
      rw [Symbol.text, List.singleton_append, symbolAt?]
      all_goals
        intros
        simp_all
  all_goals rfl

/-- No symbol starts as a numeral, a name, a literal or a blank does. -/
theorem exists_symbolText (s : Symbol) :
    ∃ c t, s.text = c :: t ∧ c.isDigit = false ∧ c ≠ '.' ∧ isNameStart c = false ∧ c ≠ '"' ∧
      isSkipped c = false := by
  cases s <;> exact ⟨_, _, rfl, by decide⟩

theorem lexemeAt_symbol {s : Symbol} {c : Char} {t rest : Text} (htext : s.text = c :: t)
    (hsymbol : symbolAt? (c :: t ++ rest) = some s) :
    lexemeAt c (t ++ rest) = .ok (.symbol s) (t.length + 1) := by
  obtain ⟨d, u, htext', hdigit, hpoint, hname, hquote, -⟩ := exists_symbolText s
  obtain ⟨rfl, -⟩ := List.cons.inj (htext.symm.trans htext')
  unfold lexemeAt
  rw [numeralLength_of_not_digit hdigit hpoint]
  dsimp only
  rw [if_neg (by simp), hname, if_neg (by simp), if_neg hquote]
  rw [List.cons_append] at hsymbol
  rw [hsymbol]
  exact congrArg (Found.ok (Token.symbol s)) (congrArg List.length htext)

theorem scans_symbol {s : Symbol} {rest : Text} (hsymbol : symbolAt? (s.text ++ rest) = some s) :
    Scans s.text [.symbol s] rest := by
  obtain ⟨c, t, htext, -, -, -, -, hskip⟩ := exists_symbolText s
  rw [htext] at hsymbol ⊢
  exact scans_lexeme hskip (lexemeAt_symbol htext hsymbol)

/-! ## What a scan finds -/

/-- A token that a scan finds: no number has a sign, and a name is one. -/
def Token.IsScanned : Token → Prop
  | .int n => 0 ≤ n.toInt
  | .float x => x = .infinite false ∨ ∃ units h, x = .finite false units h
  | .name t => isName t = true
  | _ => True

theorem integerToken_isScanned {n : Nat} {token : Token} (h : integerToken n = .ok token) :
    token.IsScanned := by
  unfold integerToken at h
  split at h
  · next m hm =>
    obtain rfl := Except.ok.inj h
    have hvalue : m.toInt = n := Number.narrow?_eq_some_iff.1 hm
    show 0 ≤ m.toInt
    omega
  · nomatch h

theorem numeralToken_isScanned {t : Text} {token : Token} (h : numeralToken t = .ok token) :
    token.IsScanned := by
  unfold numeralToken at h
  split at h
  · split at h
    · nomatch h
    · exact integerToken_isScanned h
  · split at h
    · obtain rfl := Except.ok.inj h
      exact Number.Decimal.toBinary32_cases false _
    · exact integerToken_isScanned h

theorem nameToken_isScanned {name : Text} (h : isName name = true) :
    (nameToken name).IsScanned := by
  unfold nameToken
  split
  · trivial
  · split
    · trivial
    · exact h

/-- A lexeme is a numeral, a name, a text literal or a symbol. -/
theorem lexemeAt_cases {c : Char} {rest : Text} {token : Token}
    (h : (lexemeAt c rest).result = .ok token) :
    (∃ t, numeralToken t = .ok token) ∨
      (isNameStart c = true ∧ token = nameToken (c :: rest.takeWhile isNamePart)) ∨
      (∃ t, token = .str t) ∨ ∃ s, token = .symbol s := by
  unfold lexemeAt at h
  dsimp only at h
  split at h
  · unfold numeral at h
    dsimp only at h
    split at h
    · exact .inl ⟨_, h⟩
    · nomatch h
  · split at h
    · next hc => exact .inr (.inl ⟨hc, (Except.ok.inj h).symm⟩)
    · split at h
      · obtain ⟨t, -, rfl⟩ := map_eq_ok_iff.1 h
        exact .inr (.inr (.inl ⟨t, rfl⟩))
      · split at h
        · next s _ => exact .inr (.inr (.inr ⟨s, (Except.ok.inj h).symm⟩))
        · nomatch h

theorem lexemeAt_isScanned {c : Char} {rest : Text} {token : Token}
    (h : (lexemeAt c rest).result = .ok token) : token.IsScanned := by
  rcases lexemeAt_cases h with ⟨t, ht⟩ | ⟨hc, rfl⟩ | ⟨t, rfl⟩ | ⟨s, rfl⟩
  · exact numeralToken_isScanned ht
  · refine nameToken_isScanned ?_
    rw [isName, hc, Bool.true_and, List.all_eq_true]
    exact fun d hd => List.mem_takeWhile_imp hd
  · trivial
  · trivial

/-- Every lexeme of a scan stands somewhere in the text. -/
theorem exists_lexemeAt_of_scan (t : Text) : ∀ {skip column : Nat} {lexemes : List Lexeme},
    scan skip column t = .ok lexemes → ∀ lexeme ∈ lexemes,
      ∃ c rest, c :: rest <:+ t ∧ (lexemeAt c rest).result = .ok lexeme.token := by
  induction t with
  | nil =>
    intro skip column lexemes h
    obtain rfl : [] = lexemes := by cases skip <;> exact Except.ok.inj h
    nofun
  | cons c t ih =>
    -- what stands in the rest of the text stands in the text
    have later : ∀ {skip column : Nat} {lexemes : List Lexeme},
        scan skip column t = .ok lexemes → ∀ lexeme ∈ lexemes,
          ∃ d rest, d :: rest <:+ c :: t ∧ (lexemeAt d rest).result = .ok lexeme.token := by
      intro skip column lexemes h lexeme hmem
      obtain ⟨d, rest, hrest, hfound⟩ := ih h lexeme hmem
      exact ⟨d, rest, hrest.trans (List.suffix_cons c t), hfound⟩
    intro skip column lexemes h
    -- a character of a lexeme that was taken, a blank, or the start of a lexeme
    cases skip with
    | succ skip => exact later h
    | zero =>
      rw [scan] at h
      split at h
      · exact later h
      · dsimp only at h
        split at h
        · nomatch h
        · next token htoken =>
          obtain ⟨found, hfound, rfl⟩ := map_eq_ok_iff.1 h
          intro lexeme hmem
          rcases List.mem_cons.1 hmem with rfl | hmem
          · exact ⟨c, t, List.suffix_refl _, htoken⟩
          · exact later hfound lexeme hmem

theorem scan_isScanned (t : Text) {skip column : Nat} {lexemes : List Lexeme}
    (h : scan skip column t = .ok lexemes) : ∀ lexeme ∈ lexemes, lexeme.token.IsScanned := by
  intro lexeme hmem
  obtain ⟨c, rest, -, hfound⟩ := exists_lexemeAt_of_scan t h lexeme hmem
  exact lexemeAt_isScanned hfound

end SourcePreprocessor
