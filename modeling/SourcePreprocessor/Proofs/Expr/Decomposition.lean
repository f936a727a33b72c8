import SourcePreprocessor.Proofs.Expr.Patterns

/-!
# A text is blanks and longest lexemes

A scan takes the text apart without loss: blanks, a lexeme, blanks, a lexeme, and so on to the end,
each lexeme the longest that stands at its place, with the token that it denotes and the column
where it starts. Where no lexeme stands the scan stops, and the text before that place is taken
apart in the same way.

> `Stands l token rest`: with `rest` after it, `l` is the longest lexeme and denotes the token;
> `Decomposes t rest lexemes`: the text `t`, which `rest` follows, is blanks and such lexemes;
> `NoLexeme kind fragment after`: why no lexeme stands where the fragment does.

Each part of the scan accounts for what it takes (`Found.AccountsFor`), so the whole of it does:

> `tokenize_decomposes`: the text is decomposed, or it is up to a fragment that is no lexeme;
> `tokenize_eq_ok_iff`: a text has at most one decomposition, and it is the one that is found.

A numeral that is directly followed by a letter, a digit, an underscore or a dollar sign is the
longest lexeme there and still none: the fragment is the numeral with all that is glued to it.
-/

namespace SourcePreprocessor

open Pattern

/-! ## Text literals -/

/-- A backslash and what follows it, where this stands for no character and `after` comes next. A
code that the end of the text cuts short has nothing after it. -/
inductive BadEscape : (escape after : Text) → Prop
  | letter {letter : Char} {after : Text} :
      letter ≠ 'u' → escaped? letter = none → BadEscape ['\\', letter] after
  | code {d₁ d₂ d₃ d₄ : Char} {after : Text} :
      codeEscape? d₁ d₂ d₃ d₄ = none → BadEscape ['\\', 'u', d₁, d₂, d₃, d₄] after
  | short {digits : Text} : digits.length < 4 → BadEscape ('\\' :: 'u' :: digits) []

/-- What is found after the opening quote of a literal. -/
inductive FoundBody : Text → Found Text → Prop
  | closed {body t after : Text} :
      Spells body t → FoundBody (body ++ '"' :: after) (.ok t (body.length + 1))
  | ended {body t : Text} : Spells body t → FoundBody body (.error .unterminatedString body.length)
  | backslash {body t : Text} :
      Spells body t → FoundBody (body ++ ['\\']) (.error .unterminatedString (body.length + 1))
  | escape {body t escape after : Text} : Spells body t → BadEscape escape after →
      FoundBody (body ++ escape ++ after) (.error .unknownEscape (body.length + escape.length))

/-- One more character in front, in any spelling, leaves what is found after it. -/
theorem FoundBody.push {rest : Text} {found : Found Text} (h : FoundBody rest found) {c : Char}
    (front : Text) (hfront : ∀ body t, Spells body t → Spells (front ++ body) (c :: t)) :
    FoundBody (front ++ rest) (found.push c front.length) := by
  cases h with
  | @closed body t after hbody =>
    have h := @FoundBody.closed _ _ after (hfront body t hbody)
    rw [List.append_assoc, List.length_append, Nat.add_assoc, Nat.add_comm] at h
    exact h
  | ended hbody =>
    have h := FoundBody.ended (hfront _ _ hbody)
    rw [List.length_append, Nat.add_comm] at h
    exact h
  | backslash hbody =>
    have h := FoundBody.backslash (hfront _ _ hbody)
    rw [List.append_assoc, List.length_append, Nat.add_assoc, Nat.add_comm] at h
    exact h
  | @escape body t escape after hbody hescape =>
    have h := FoundBody.escape (hfront body t hbody) hescape
    rw [List.append_assoc, List.append_assoc, List.length_append, Nat.add_assoc,
      Nat.add_comm] at h
    rw [List.append_assoc]
    exact h

theorem foundBody (t : Text) : FoundBody t (stringBody t) := by
  fun_induction stringBody t with
  | case1 => exact .ended .nil
  | case2 after => exact .closed .nil
  | case3 => exact .backslash .nil
  | case4 d₁ d₂ d₃ d₄ rest c hc ih =>
    exact ih.push ['\\', 'u', d₁, d₂, d₃, d₄] fun _ _ => .code hc
  | case5 d₁ d₂ d₃ d₄ rest hc => exact .escape .nil (.code hc)
  | case6 digits hshort =>
    have hlength : digits.length < 4 := by
      match digits with
      | [] | [_] | [_, _] | [_, _, _] => simp
      | d₁ :: d₂ :: d₃ :: d₄ :: rest => exact (hshort d₁ d₂ d₃ d₄ rest rfl).elim
    have h := FoundBody.escape .nil (.short hlength)
    rw [List.append_nil, List.length_nil, Nat.zero_add] at h
    rw [Nat.add_comm]
    exact h
  | case7 letter rest _ _ c hc ih => exact ih.push ['\\', letter] fun _ _ => .letter hc
  | case8 letter rest _ hu hletter => exact .escape .nil (.letter hu hletter)
  | case9 c rest hquote hend _ _ hletter ih =>
    refine ih.push [c] fun _ _ => .plain hquote fun hslash => ?_
    cases rest with
    | nil => exact hend hslash rfl
    | cons letter rest => exact hletter letter rest hslash rfl

/-- The body of a literal is found as the text that it spells. -/
theorem stringBody_closed {body t : Text} (h : Spells body t) (after : Text) :
    stringBody (body ++ '"' :: after) = .ok t (body.length + 1) := by
  induction h with
  | nil => rfl
  | plain hquote hslash _ ih =>
    rw [List.cons_append, stringBody, ih]
    · rfl
    · exact hquote
    all_goals
      intros
      contradiction
  | @letter letter c body t hletter _ ih =>
    have hu : letter ≠ 'u' := by
      rintro rfl
      cases hletter
    rw [List.cons_append, List.cons_append, stringBody, hletter, ih]
    · rfl
    all_goals
      intros
      contradiction
  | code hcode _ ih =>
    simp only [List.cons_append, stringBody, hcode, ih]
    rfl

/-- No text literal goes on after its closing quote. -/
theorem longest_literal {body t : Text} (h : Spells body t) (after : Text) :
    Longest literal ('"' :: body ++ ['"']) after := by
  refine ⟨⟨body, t, h, rfl⟩, ?_⟩
  rintro - ⟨body', t', h', rfl⟩ ⟨after', heq⟩
  have hbody : body' ++ '"' :: after' = body ++ '"' :: after := by simpa using heq
  have hfound := stringBody_closed h' after'
  rw [hbody, stringBody_closed h after] at hfound
  have hlength : body.length + 1 = body'.length + 1 := congrArg Found.length hfound
  simp only [List.length_append, List.length_cons]
  omega

/-! ## Denotations -/

/-- The integer that a numeral denotes. -/
inductive IntegerValue : Text → Nat → Prop
  | decimal {l : Text} : l ∈ digits → IntegerValue l (Number.ofDigits l)
  | hexadecimal {x : Char} {l : Text} : (x = 'x' || x = 'X') = true → l ≠ [] →
      (∀ c ∈ l, Number.isHexDigit c = true) → IntegerValue ('0' :: x :: l) (Number.ofHexDigits l)

/-- The token that a lexeme denotes. -/
inductive Denotes : Text → Token → Prop
  | int {l : Text} {n : Nat} {m : Int64} : IntegerValue l n → m.toInt = n → Denotes l (.int m)
  /-- A numeral in base ten with a point or an exponent. -/
  | float {l : Text} : l ∈ decimal + pointed → l ∉ digits → Denotes l (.float (.ofNumeral false l))
  | str {body t : Text} : Spells body t → Denotes ('"' :: body ++ ['"']) (.str t)
  | true : Denotes "true".toList (.bool true)
  | false : Denotes "false".toList (.bool false)
  | name {l : Text} :
      l ∈ word → l ≠ "true".toList → l ≠ "false".toList → Denotes l (.name l)
  | symbol (s : Symbol) : Denotes s.text (.symbol s)

/-- Nothing that would spoil a numeral leads the text. -/
def Unglued (rest : Text) : Prop := ∀ c u, rest = c :: u → spoilsNumeral c = false

/-- With `rest` after it, `l` is a lexeme and denotes the token. -/
structure Stands (l : Text) (token : Token) (rest : Text) : Prop where
  longest : Longest lexical l rest
  denotes : Denotes l token
  unglued : l ∈ number → Unglued rest

/-- Why no lexeme stands where `fragment` does, with `after` after it. -/
inductive NoLexeme : LexErrorKind → (fragment after : Text) → Prop
  | unexpectedCharacter {c : Char} {after : Text} : isSkipped c = false → c ≠ '"' →
      (∀ p ∈ lexical, ¬p <+: c :: after) → NoLexeme .unexpectedCharacter [c] after
  | glued {l glued after : Text} : Longest lexical l (glued ++ after) → l ∈ number →
      glued ≠ [] → Longest (many spoilsNumeral) glued after →
      NoLexeme .malformedNumber (l ++ glued) after
  | noDigits {x : Char} {after : Text} : (x = 'x' || x = 'X') = true →
      Longest lexical ['0', x] after → Unglued after → NoLexeme .malformedNumber ['0', x] after
  | tooLarge {l after : Text} {n : Nat} : Longest lexical l after → Unglued after →
      IntegerValue l n → Int64.maxValue.toInt < n → NoLexeme .integerOverflow l after
  | unterminated {body t : Text} : Spells body t → NoLexeme .unterminatedString ('"' :: body) []
  | backslash {body t : Text} :
      Spells body t → NoLexeme .unterminatedString ('"' :: (body ++ ['\\'])) []
  | unknownEscape {body t escape after : Text} : Spells body t → BadEscape escape after →
      NoLexeme .unknownEscape ('"' :: (body ++ escape)) after

/-- What is found at the start of a text accounts for it: it is a lexeme or a reason why there is
none. -/
def Found.AccountsFor (found : Found Token) (t : Text) : Prop :=
  ∃ l after, t = l ++ after ∧ found.length = l.length ∧
    match found.result with
    | .ok token => Stands l token after
    | .error kind => NoLexeme kind l after

/-! ## Numerals -/

theorem integerToken_cases (n : Nat) :
    (∃ m : Int64, m.toInt = n ∧ integerToken n = .ok (.int m)) ∨
      (Int64.maxValue.toInt < n ∧ integerToken n = .error .integerOverflow) := by
  unfold integerToken
  split
  · next m hm => exact .inl ⟨m, Number.narrow?_eq_some_iff.1 hm, rfl⟩
  · next hnone =>
    have hmin : Int64.minValue.toInt < 0 := by decide
    have hrange := Number.narrow?_eq_none_iff.1 hnone
    exact .inr ⟨by omega, rfl⟩

/-- A numeral that denotes an integer has its token, or the integer is too large. -/
theorem accountsFor_integer {l after : Text} {n : Nat} (hlongest : Longest number l after)
    (hunglued : Unglued after) (hvalue : IntegerValue l n) :
    (Found.mk (integerToken n) l.length).AccountsFor (l ++ after) := by
  have hlexical : Longest lexical l after := longest_lexical .number hlongest
  refine ⟨l, after, rfl, rfl, ?_⟩
  rcases integerToken_cases n with ⟨m, hm, htoken⟩ | ⟨hlarge, htoken⟩
  · rw [htoken]
    exact ⟨hlexical, .int hvalue hm, fun _ => hunglued⟩
  · rw [htoken]
    exact .tooLarge hlexical hunglued hvalue hlarge

theorem mem_baseTen_of_digits {l : Text} (h : l ∈ digits) : l ∈ decimal + pointed := by
  refine .inl ?_
  have hmem : l ++ [] ++ [] ∈ digits * (1 + fraction) * (1 + exponent) :=
    Language.append_mem_mul (Language.append_mem_mul h (.inl rfl)) (.inl rfl)
  rwa [List.append_nil, List.append_nil] at hmem

/-- A numeral in base ten with neither a point nor the letter of an exponent is digits. -/
theorem any_special_iff {l : Text} (hl : l ∈ decimal + pointed) :
    l.any (fun c => c = '.' || c = 'e' || c = 'E') = true ↔ l ∉ digits := by
  constructor
  · intro hany hdigits
    obtain ⟨c, hc, hspecial⟩ := List.any_eq_true.1 hany
    have hdigit := (mem_digits.1 hdigits).2 c hc
    simp only [Bool.or_eq_true, decide_eq_true_eq] at hspecial
    rcases hspecial with (rfl | rfl) | rfl <;> nomatch hdigit
  · intro hdigits
    rw [decimal_add_pointed] at hl
    obtain ⟨m, hm, e, he, rfl⟩ := Language.mem_mul.1 hl
    rw [List.any_append, Bool.or_eq_true]
    cases e with
    | cons c u =>
      refine .inr ?_
      rcases eq_letter_of_mem_exponent he with rfl | rfl <;> simp
    | nil =>
      refine .inl ?_
      rcases hm with hm | hm
      · obtain ⟨d, hd, f, hf, rfl⟩ := Language.mem_mul.1 hm
        cases f with
        | nil =>
          rw [List.append_nil, List.append_nil] at hdigits
          exact absurd hd hdigits
        | cons c u =>
          obtain rfl := eq_point_of_mem_fraction hf
          simp
      · obtain ⟨c, u, rfl, hc, -⟩ := mem_one_mul.1 hm
        obtain rfl : c = '.' := of_decide_eq_true hc
        simp

/-- A numeral with nothing glued to it has the token that it denotes, or none. -/
theorem accountsFor_unglued {l after : Text} (hlongest : Longest number l after)
    (hunglued : Unglued after) : (Found.mk (numeralToken l) l.length).AccountsFor (l ++ after) := by
  have hlexical : Longest lexical l after := longest_lexical .number hlongest
  unfold numeralToken
  rcases hlongest.mem with hmem | hmem
  · obtain ⟨x, u, rfl, hx, hu⟩ := mem_hexadecimal.1 hmem
    rw [if_pos (startsHex_iff.2 ⟨x, u, rfl, hx⟩)]
    cases u with
    | nil => exact ⟨['0', x], after, rfl, rfl, .noDigits hx hlexical hunglued⟩
    | cons c u => exact accountsFor_integer hlongest hunglued (.hexadecimal hx nofun hu)
  · rw [startsHex_of_baseTen hmem, if_neg (by simp)]
    split
    · next hany =>
      have hfloat := (any_special_iff hmem).1 hany
      exact ⟨l, after, rfl, rfl, hlexical, .float hmem hfloat, fun _ => hunglued⟩
    · next hany =>
      have hdigits : l ∈ digits := by
        by_contra h
        exact hany ((any_special_iff hmem).2 h)
      exact accountsFor_integer hlongest hunglued (.decimal hdigits)

/-- A numeral accounts for itself and what is glued to it. -/
theorem accountsFor_numeral {l after : Text} (hlongest : Longest number l after) :
    (numeral (l ++ after) l.length).AccountsFor (l ++ after) := by
  unfold numeral
  rw [List.drop_left, List.take_left]
  dsimp only
  split
  · next hglued =>
    refine accountsFor_unglued hlongest ?_
    rintro c u rfl
    rw [List.takeWhile_cons] at hglued
    split at hglued
    · nomatch hglued
    · next hc => exact Bool.eq_false_iff.2 hc
  · next hglued =>
    refine ⟨l ++ after.takeWhile spoilsNumeral, after.dropWhile spoilsNumeral, ?_, ?_,
      .glued ?_ hlongest.mem ?_ (longest_many spoilsNumeral after)⟩
    · rw [List.append_assoc, List.takeWhile_append_dropWhile]
    · exact List.length_append.symm
    · rw [List.takeWhile_append_dropWhile]
      exact longest_lexical .number hlongest
    · exact fun hnil => hglued (congrArg List.length hnil)

/-! ## Words, text literals and symbols -/

theorem denotes_nameToken {l : Text} (hl : l ∈ word) : Denotes l (nameToken l) := by
  unfold nameToken
  split
  · next h =>
    rw [h]
    exact .true
  · next htrue =>
    split
    · next h =>
      rw [h]
      exact .false
    · next hfalse => exact .name hl htrue hfalse

/-- A word goes on as long as name characters do. -/
theorem longest_word {c : Char} (hc : isNameStart c = true) (rest : Text) :
    Longest word (c :: rest.takeWhile isNamePart) (rest.dropWhile isNamePart) :=
  (longest_many isNamePart rest).cons hc

theorem accountsFor_word {c : Char} (hc : isNameStart c = true) (rest : Text) :
    (Found.ok (nameToken (c :: rest.takeWhile isNamePart))
      (c :: rest.takeWhile isNamePart).length).AccountsFor (c :: rest) := by
  have hlongest := longest_word hc rest
  refine ⟨_, rest.dropWhile isNamePart, ?_, rfl, longest_lexical .word hlongest,
    denotes_nameToken hlongest.mem, ?_⟩
  · rw [List.cons_append, List.takeWhile_append_dropWhile]
  · exact fun hmem => nomatch kind_unique .word .number hlongest.mem hmem

theorem accountsFor_literal (rest : Text) :
    (Found.mk ((stringBody rest).result.map Token.str) ((stringBody rest).length + 1)).AccountsFor
      ('"' :: rest) := by
  have hfound := foundBody rest
  generalize stringBody rest = found at hfound
  cases hfound with
  | @closed body t after hbody =>
    have hlongest := longest_literal hbody after
    refine ⟨'"' :: body ++ ['"'], after, ?_, ?_, longest_lexical .literal hlongest, .str hbody,
      fun hmem => nomatch kind_unique .literal .number hlongest.mem hmem⟩
    · simp
    · show body.length + 1 + 1 = _
      simp
  | ended hbody => exact ⟨'"' :: rest, [], (List.append_nil _).symm, rfl, .unterminated hbody⟩
  | @backslash body t hbody =>
    refine ⟨'"' :: (body ++ ['\\']), [], (List.append_nil _).symm, ?_, .backslash hbody⟩
    show body.length + 1 + 1 = _
    simp
  | @escape body t escape after hbody hescape =>
    refine ⟨'"' :: (body ++ escape), after, rfl, ?_, .unknownEscape hbody hescape⟩
    show body.length + escape.length + 1 = _
    simp

theorem prefix_of_symbolAt? {t : Text} {s : Symbol} (h : symbolAt? t = some s) : s.text <+: t := by
  unfold symbolAt? at h
  split at h
  all_goals
    cases h
    try exact ⟨_, rfl⟩

/-- Where a symbol stands, it or a longer one is found. -/
theorem exists_symbolAt? (s : Symbol) (rest : Text) :
    ∃ found, symbolAt? (s.text ++ rest) = some found ∧ s.text.length ≤ found.text.length := by
  by_cases h : ∃ t, rest = '=' :: t
  · obtain ⟨t, rfl⟩ := h
    cases s <;> exact ⟨_, rfl, by decide⟩
  · exact ⟨s, symbolAt?_text s fun t ht => h ⟨t, ht⟩, Nat.le_refl _⟩

/-- The symbol that is found is the longest one. -/
theorem exists_longest_symbol {t : Text} {s : Symbol} (h : symbolAt? t = some s) :
    ∃ rest, t = s.text ++ rest ∧ Longest symbol s.text rest := by
  obtain ⟨rest, rfl⟩ := prefix_of_symbolAt? h
  refine ⟨rest, rfl, ⟨s, rfl⟩, ?_⟩
  rintro - ⟨other, rfl⟩ ⟨after, heq⟩
  obtain ⟨found, hfound, hle⟩ := exists_symbolAt? other after
  rw [heq, h] at hfound
  obtain rfl := Option.some.inj hfound
  exact hle

theorem not_prefix_symbol {t : Text} (h : symbolAt? t = none) : ∀ p ∈ symbol, ¬p <+: t := by
  rintro - ⟨s, rfl⟩ ⟨rest, rfl⟩
  obtain ⟨found, hfound, -⟩ := exists_symbolAt? s rest
  rw [h] at hfound
  nomatch hfound

/-! ## What is found at each place -/

/-- What is found at a place that is no blank accounts for the text there. -/
theorem lexemeAt_accountsFor {c : Char} (hskip : isSkipped c = false) (rest : Text) :
    (lexemeAt c rest).AccountsFor (c :: rest) := by
  unfold lexemeAt
  dsimp only
  split
  · next hlength =>
    obtain ⟨l, after, ht, hl, hlongest⟩ := exists_numeral hlength
    rw [← hl, ht]
    exact accountsFor_numeral hlongest
  · next hnumber =>
    have hnumber := not_prefix_numeral (Classical.not_not.1 hnumber)
    split
    · next hname => exact accountsFor_word hname rest
    · next hname =>
      split
      · next hquote =>
        rw [hquote]
        exact accountsFor_literal rest
      · next hquote =>
        split
        · next s hs =>
          obtain ⟨after, ht, hlongest⟩ := exists_longest_symbol hs
          exact ⟨s.text, after, ht, rfl, longest_lexical .symbol hlongest, .symbol s,
            fun hmem => nomatch kind_unique .symbol .number hlongest.mem hmem⟩
        · next hnone =>
          refine ⟨[c], rest, rfl, rfl, .unexpectedCharacter hskip hquote fun p hp hpre => ?_⟩
          obtain ⟨kind, hp⟩ := mem_lexical.1 hp
          cases kind with
          | number => exact hnumber p hp hpre
          | word =>
            obtain ⟨d, u, v, -, hv, hd, -⟩ := prefix_one_mul hp hpre
            obtain ⟨rfl, -⟩ := List.cons.inj hv
            exact hname hd
          | literal =>
            obtain ⟨body, t, -, rfl⟩ := hp
            exact hquote (List.cons_prefix_cons.1 hpre).1.symm
          | symbol => exact not_prefix_symbol hnone p hp hpre

/-! ## Decompositions -/

/-- The text `t`, which `rest` follows, is blanks and lexemes in turn. A lexeme has the column one
after the number of characters before it. -/
inductive Decomposes : (t rest : Text) → List Lexeme → Prop
  | blanks {ws rest : Text} : (∀ c ∈ ws, isSkipped c = true) → Decomposes ws rest []
  | lexeme {t l ws rest : Text} {token : Token} {lexemes : List Lexeme} :
      Decomposes t (l ++ ws ++ rest) lexemes → Stands l token (ws ++ rest) →
      (∀ c ∈ ws, isSkipped c = true) →
      Decomposes (t ++ l ++ ws) rest (lexemes ++ [⟨token, t.length + 1⟩])

/-- A blank goes to the text before it. -/
theorem Decomposes.blank {t rest : Text} {c : Char} {lexemes : List Lexeme}
    (h : Decomposes t (c :: rest) lexemes) (hc : isSkipped c = true) :
    Decomposes (t ++ [c]) rest lexemes := by
  cases h with
  | blanks hws => exact .blanks (List.forall_mem_append.2 ⟨hws, by simpa using hc⟩)
  | @lexeme t l ws _ token lexemes h hl hws =>
    rw [List.append_assoc]
    refine .lexeme ?_ ?_ (List.forall_mem_append.2 ⟨hws, by simpa using hc⟩)
    · simpa using h
    · simpa using hl

/-- A lexeme goes to the text before it. -/
theorem Decomposes.snoc {t l rest : Text} {token : Token} {lexemes : List Lexeme}
    (h : Decomposes t (l ++ rest) lexemes) (hl : Stands l token rest) :
    Decomposes (t ++ l) rest (lexemes ++ [⟨token, t.length + 1⟩]) := by
  have h' : Decomposes (t ++ l ++ []) rest (lexemes ++ [⟨token, t.length + 1⟩]) :=
    .lexeme (by simpa using h) hl nofun
  rwa [List.append_nil] at h'

/-- What a scan of a whole text gives: its decomposition, or that of the text before a fragment that
is no lexeme. -/
def AccountsFor (source : Text) : Except LexError (List Lexeme) → Prop
  | .ok lexemes => Decomposes source [] lexemes
  | .error e => ∃ before after lexemes,
      source = before ++ e.fragment ++ after ∧ e.column = before.length + 1 ∧
        Decomposes before (e.fragment ++ after) lexemes ∧ NoLexeme e.kind e.fragment after

theorem map_append_cons (found : Except LexError (List Lexeme)) (lexemes : List Lexeme)
    (lexeme : Lexeme) :
    (found.map (lexeme :: ·)).map (lexemes ++ ·) = found.map (lexemes ++ [lexeme] ++ ·) := by
  cases found with
  | ok ls => exact congrArg Except.ok (List.append_cons lexemes lexeme ls)
  | error e => rfl

/-- A scan that goes on after a decomposition accounts for the whole text. -/
theorem scan_accountsFor (t before : Text) (lexemes : List Lexeme)
    (h : Decomposes before t lexemes) :
    AccountsFor (before ++ t) ((scan 0 (before.length + 1) t).map (lexemes ++ ·)) := by
  match t with
  | [] =>
    show Decomposes (before ++ []) [] (lexemes ++ [])
    rwa [List.append_nil, List.append_nil]
  | c :: rest =>
    cases hskip : isSkipped c with
    | true =>
      have ih := scan_accountsFor rest (before ++ [c]) lexemes (h.blank hskip)
      rw [scan, hskip]
      rwa [List.append_assoc, List.length_append] at ih
    | false =>
      obtain ⟨l, after, ht, hlength, hfound⟩ := lexemeAt_accountsFor hskip rest
      split at hfound
      · next token htoken =>
        obtain ⟨kind, hkind⟩ := mem_lexical.1 hfound.longest.mem
        obtain ⟨d, u, rfl, -⟩ := exists_start hkind
        obtain rfl : c = d := (List.cons.inj ht).1
        have hrest : rest = u ++ after := (List.cons.inj ht).2
        have hshorter : after.length < rest.length + 1 := by
          rw [hrest, List.length_append]
          omega
        have hlexeme : lexemeAt c (u ++ after) = .ok token (u.length + 1) := by
          rw [← hrest]
          unfold Found.ok
          rw [← htoken]
          exact congrArg (Found.mk _) hlength
        rw [ht] at h
        have ih := scan_accountsFor after (before ++ c :: u) _ (h.snoc hfound)
        rw [List.append_assoc, List.length_append, Nat.add_right_comm] at ih
        rw [ht, scan_lexeme hskip hlexeme, map_append_cons]
        exact ih
      · next kind hkind =>
        rw [scan, hskip]
        dsimp only
        rw [hkind, hlength, ht, List.take_left]
        rw [ht] at h
        exact ⟨before, after, lexemes, (List.append_assoc before l after).symm, rfl, h, hfound⟩
termination_by t.length

theorem tokenize_accountsFor (source : Text) : AccountsFor source (tokenize source) := by
  have h := scan_accountsFor source [] [] (.blanks nofun)
  change AccountsFor source ((tokenize source).map ([] ++ ·)) at h
  cases hscan : tokenize source with
  | ok lexemes =>
    rw [hscan] at h
    exact h
  | error e =>
    rw [hscan] at h
    exact h

/-- **A text is blanks and longest lexemes.** Either the text has lexemes, and it is blanks and
these lexemes in turn, each the longest at its place, with the token that it denotes and the column
one after the number of characters before it. Or it has none, and the error shows the fragment that
stands at its column and is no lexeme; the text before the fragment is decomposed in the same way.
-/
theorem tokenize_decomposes (source : Text) :
    (∃ lexemes, tokenize source = .ok lexemes ∧ Decomposes source [] lexemes) ∨
      ∃ e before after lexemes, tokenize source = .error e ∧
        source = before ++ e.fragment ++ after ∧ e.column = before.length + 1 ∧
          Decomposes before (e.fragment ++ after) lexemes ∧
          NoLexeme e.kind e.fragment after := by
  have h := tokenize_accountsFor source
  cases hscan : tokenize source with
  | ok lexemes =>
    rw [hscan] at h
    exact .inl ⟨lexemes, rfl, h⟩
  | error e =>
    rw [hscan] at h
    obtain ⟨before, after, lexemes, h⟩ := h
    exact .inr ⟨e, before, after, lexemes, rfl, h⟩

example : tokenize "a <= 0x10".toList =
    .ok [⟨.name ['a'], 1⟩, ⟨.symbol .lessEqual, 3⟩, ⟨.int 16, 6⟩] := by decide

/-! ## A decomposition is found -/

theorem numeralLength_of_longest {l rest : Text} (h : Longest number l rest) :
    numeralLength (l ++ rest) = l.length := by
  have hne : numeralLength (l ++ rest) ≠ 0 :=
    fun hzero => not_prefix_numeral hzero l h.mem (List.prefix_append l rest)
  obtain ⟨l', rest', heq, hlength, hlongest⟩ := exists_numeral hne
  obtain rfl := h.unique hlongest heq
  exact hlength.symm

theorem mem_number_of_value {l : Text} {n : Nat} (h : IntegerValue l n) : l ∈ number := by
  cases h with
  | decimal hdigits => exact .inr (mem_baseTen_of_digits hdigits)
  | hexadecimal hx _ hu => exact .inl (mem_hexadecimal.2 ⟨_, _, rfl, hx, hu⟩)

theorem numeralToken_of_value {l : Text} {n : Nat} {m : Int64} (hvalue : IntegerValue l n)
    (hm : m.toInt = n) : numeralToken l = .ok (.int m) := by
  have htoken : integerToken n = .ok (.int m) := by
    unfold integerToken
    rw [Number.narrow?_eq_some_iff.2 hm]
  unfold numeralToken
  cases hvalue with
  | decimal hdigits =>
    have hmem := mem_baseTen_of_digits hdigits
    have hplain := (any_special_iff hmem).not.2 (Classical.not_not.2 hdigits)
    rw [startsHex_of_baseTen hmem, if_neg (by simp), if_neg hplain]
    exact htoken
  | @hexadecimal x u hx hne hu =>
    rw [if_pos (startsHex_iff.2 ⟨x, u, rfl, hx⟩)]
    show (if u.isEmpty = true then _ else _) = _
    rw [if_neg (by simp [hne])]
    exact htoken

/-- Where `l` stands with `rest` after it, it is found as the token. -/
def FoundAs (l : Text) (token : Token) (rest : Text) : Prop :=
  ∃ c u, l = c :: u ∧ isSkipped c = false ∧ lexemeAt c (u ++ rest) = .ok token (u.length + 1)

theorem foundAs_of_number {l rest : Text} {token : Token} (h : Longest number l rest)
    (hrest : Unglued rest) (htoken : numeralToken l = .ok token) : FoundAs l token rest := by
  obtain ⟨c, u, rfl, hc⟩ := exists_start_of_mem_number h.mem
  have hpart : isNamePart c = true := by
    simp only [isMantissaPart, Bool.or_eq_true, decide_eq_true_eq] at hc
    rcases hc with hc | rfl
    · exact isNamePart_of_isDigit hc
    · rfl
  have hglued : rest.takeWhile spoilsNumeral = [] := by
    cases rest with
    | nil => rfl
    | cons d v => rw [List.takeWhile_cons, hrest d v rfl, if_neg (by simp)]
  exact ⟨c, u, rfl, isSkipped_of_isNamePart hpart,
    lexemeAt_numeral (numeralLength_of_longest h) hglued htoken⟩

theorem foundAs_of_word {l rest : Text} (h : Longest word l rest) :
    FoundAs l (nameToken l) rest := by
  obtain ⟨c, u, rfl, hc, -⟩ := mem_one_mul.1 h.mem
  have htake : (u ++ rest).takeWhile isNamePart = u := by
    have heq := h.unique (longest_word hc (u ++ rest)) (by
      rw [List.cons_append, List.cons_append, List.takeWhile_append_dropWhile])
    exact (List.cons.inj heq).2.symm
  exact ⟨c, u, rfl, isSkipped_of_isNamePart (isNamePart_of_isNameStart hc),
    lexemeAt_word hc htake⟩

theorem foundAs_of_symbol {s : Symbol} {rest : Text} (h : Longest symbol s.text rest) :
    FoundAs s.text (.symbol s) rest := by
  obtain ⟨c, u, htext, -, -, -, -, hskip⟩ := exists_symbolText s
  obtain ⟨found, hfound, -⟩ := exists_symbolAt? s rest
  obtain ⟨after, heq, hlongest⟩ := exists_longest_symbol hfound
  -- the symbol that is found has the same text, so it is the same
  have halone : ∀ s : Symbol, symbolAt? (s.text ++ []) = some s :=
    fun s => symbolAt?_text s nofun
  have hsame : some found = some s := by
    rw [← halone s, ← halone found, h.unique hlongest heq]
  rw [hsame, htext] at hfound
  exact ⟨c, u, htext, hskip, lexemeAt_symbol htext hfound⟩

/-- What stands at a place is what is found there. -/
theorem Stands.foundAs {l rest : Text} {token : Token} (h : Stands l token rest) :
    FoundAs l token rest := by
  obtain ⟨hlongest, hdenotes, hunglued⟩ := h
  have hnumber : l ∈ number → numeralToken l = .ok token → FoundAs l token rest :=
    fun hmem => foundAs_of_number (longest_of_lexical .number hlongest hmem) (hunglued hmem)
  have hword : l ∈ word → FoundAs l (nameToken l) rest :=
    fun hmem => foundAs_of_word (longest_of_lexical .word hlongest hmem)
  cases hdenotes with
  | int hvalue hm => exact hnumber (mem_number_of_value hvalue) (numeralToken_of_value hvalue hm)
  | float hmem hdigits =>
    refine hnumber (.inr hmem) ?_
    unfold numeralToken
    rw [startsHex_of_baseTen hmem, if_neg (by simp), if_pos ((any_special_iff hmem).2 hdigits)]
  | @str body t hbody =>
    exact ⟨'"', body ++ ['"'], rfl, rfl, lexemeAt_literal (stringBody_closed hbody rest)⟩
  | true => exact hword (mem_word.2 (by decide))
  | false => exact hword (mem_word.2 (by decide))
  | name hmem htrue hfalse =>
    have htoken : nameToken l = .name l := by
      unfold nameToken
      rw [if_neg htrue, if_neg hfalse]
    rw [← htoken]
    exact hword hmem
  | symbol s => exact foundAs_of_symbol (longest_of_lexical .symbol hlongest ⟨s, rfl⟩)

theorem scan_blanks {ws : Text} (hws : ∀ c ∈ ws, isSkipped c = true) (column : Nat) (rest : Text) :
    scan 0 column (ws ++ rest) = scan 0 (column + ws.length) rest := by
  induction ws generalizing column with
  | nil => rfl
  | cons c ws ih =>
    obtain ⟨hc, hws⟩ := List.forall_mem_cons.1 hws
    rw [List.cons_append, scan, hc, if_pos rfl, ih hws, List.length_cons, Nat.add_right_comm,
      Nat.add_assoc]

/-- A scan gives the lexemes of a decomposition and goes on after it. -/
theorem scan_of_decomposes {t rest : Text} {lexemes : List Lexeme}
    (h : Decomposes t rest lexemes) :
    scan 0 1 (t ++ rest) = (scan 0 (t.length + 1) rest).map (lexemes ++ ·) := by
  induction h with
  | @blanks ws rest hws =>
    rw [scan_blanks hws, Nat.add_comm 1]
    cases scan 0 (ws.length + 1) rest <;> rfl
  | @lexeme t l ws rest token lexemes _ hl hws ih =>
    obtain ⟨c, u, rfl, hskip, hfound⟩ := hl.foundAs
    calc scan 0 1 (t ++ (c :: u) ++ ws ++ rest)
        = (scan 0 (t.length + 1) (c :: u ++ (ws ++ rest))).map (lexemes ++ ·) := by
          rw [← List.append_assoc (c :: u), ← ih]
          simp only [List.append_assoc]
      _ = (scan 0 (t.length + 1 + (c :: u).length) (ws ++ rest)).map
            (lexemes ++ [⟨token, t.length + 1⟩] ++ ·) := by
          rw [scan_lexeme hskip hfound, map_append_cons]
      _ = (scan 0 ((t ++ (c :: u) ++ ws).length + 1) rest).map
            (lexemes ++ [⟨token, t.length + 1⟩] ++ ·) := by
          rw [scan_blanks hws]
          congr 2
          simp only [List.length_append]
          omega

/-- The tokens of a text are those of its decomposition, and it has no other one. -/
theorem tokenize_eq_ok_iff {source : Text} {lexemes : List Lexeme} :
    tokenize source = .ok lexemes ↔ Decomposes source [] lexemes := by
  constructor
  · intro h
    have hsource := tokenize_accountsFor source
    rw [h] at hsource
    exact hsource
  · intro h
    have hscan := scan_of_decomposes h
    rw [List.append_nil] at hscan
    unfold tokenize
    rw [hscan]
    exact congrArg Except.ok (List.append_nil lexemes)

end SourcePreprocessor
