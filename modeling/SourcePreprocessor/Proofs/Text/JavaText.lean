import SourcePreprocessor.Expr.Function
import SourcePreprocessor.Proofs.File.Place
import SourcePreprocessor.Proofs.Text.Lines
import SourcePreprocessor.Proofs.Text.Literals

/-!
# Text inside Java literals

Java reads what stands between the quotes of a literal in two steps. First every Unicode escape is
replaced by its code unit, wherever it stands and whatever it denotes; a backslash begins one when a
`u` follows it and an even number of backslashes is right before it. Then the escapes of strings are
read among the code units that came out.

So a text is safe only if no code unit that the first step brings in means something to the second,
and no backslash that one character was written with is taken for the start of another's escape.

> `str2java_decodes`: what is written for a text is read as the text's code units, and the sum of
> literals that is written line by line falls apart at its line feeds into those of the lines.
-/

namespace SourcePreprocessor.Text

/-! ## How a literal is read -/

/-- The code unit that a Unicode escape stands for, read after its backslash, and the number of
characters that belong to the escape. The letter `u` may be repeated. -/
def unicodeEscape? (t : Text) : Option (Nat × Nat) :=
  (codeUnit? (t.dropWhile (· = 'u'))).map (·, (t.takeWhile (· = 'u')).length + 4)

/-- The code units of a text after its Unicode escapes are replaced. The first `skip` characters
belong to an escape already read, and `even` tells whether the number of backslashes right before
the text is even. -/
def translateFrom : (skip : Nat) → (even : Bool) → Text → Option (List Nat)
  | 0, _, [] => some []
  | _ + 1, _, [] => none
  | skip + 1, _, _ :: rest => translateFrom skip true rest
  | 0, even, c :: rest =>
    if c = '\\' && even && rest.head? = some 'u' then
      match unicodeEscape? rest with
      | some (unit, length) => (translateFrom length true rest).map (unit :: ·)
      | none => none
    else (translateFrom 0 (c ≠ '\\' || !even) rest).map (utf16 c ++ ·)

/-- The first step of reading Java. -/
def translate (t : Text) : Option (List Nat) := translateFrom 0 true t

/-- The character that a letter after a backslash stands for. -/
def javaEscaped? : Char → Option Char
  | 'b' => some '\x08'
  | 's' => some ' '
  | 't' => some '\t'
  | 'n' => some '\n'
  | 'f' => some '\x0c'
  | 'r' => some '\r'
  | '"' => some '"'
  | '\'' => some '\''
  | '\\' => some '\\'
  | _ => none

/-- The code unit that octal digits after a backslash stand for: at most three of them, and two when
the first is above three. -/
def octalEscape? (units : List Nat) : Option (Nat × Nat) :=
  let most := if units.head?.any (· ≤ '3'.toNat) then 3 else 2
  let digits := (units.take most).takeWhile fun unit => '0'.toNat ≤ unit && unit ≤ '7'.toNat
  if digits.isEmpty then none
  else some (digits.foldl (fun n digit => 8 * n + (digit - '0'.toNat)) 0, digits.length)

/-- The escapes of strings, among the code units of a literal. A quote or a line break that is not
escaped would end the literal. -/
def javaString : Escaping Nat where
  mark := '\\'.toNat
  escape?
    | [] => none
    | unit :: rest =>
      match javaEscaped? (Char.ofNat unit) with
      | some c => some (c.toNat, 1)
      | none => octalEscape? (unit :: rest)
  plain unit := unit ≠ '"'.toNat && unit ≠ '\n'.toNat && unit ≠ '\r'.toNat

/-- The code units of the string that a literal with the given text denotes. -/
def javaUnits? (t : Text) : Option (List Nat) := (translate t).bind javaString.read

/-- A backslash that follows another begins no Unicode escape, which may repeat its `u`. Then a
backslash and octal digits denote a code unit. -/
example : javaUnits? "\\\\u0041\\uu0041\\101".toList =
    some ['\\'.toNat, 'u'.toNat, 48, 48, 52, 49, 65, 65] := by decide

/-! ## The first step -/

/-- The characters of a Unicode escape already read are passed over. -/
theorem translateFrom_append (body rest : Text) :
    translateFrom body.length true (body ++ rest) = translate rest := by
  induction body with
  | nil => rfl
  | cons c body ih => exact ih

theorem reads_character {c : Char} (h : c ≠ '\\') : Reads translate [c] (utf16 c) := by
  intro rest
  show translateFrom 0 true (c :: rest) = _
  rw [translateFrom, if_neg (by simp [h]), decide_eq_true h]
  rfl

/-- Two backslashes, or a backslash and a letter other than `u`, stay as they are. -/
theorem reads_letter {letter : Char} (h : letter ≠ 'u') :
    Reads translate ['\\', letter] ('\\'.toNat :: utf16 letter) := by
  intro rest
  show translateFrom 0 true ('\\' :: letter :: rest) = _
  rw [translateFrom, if_neg (by simp [h])]
  show (translateFrom 0 false (letter :: rest)).map _ = _
  rw [translateFrom, if_neg (by simp), Bool.not_false, Bool.or_true, Option.map_map]
  rfl

/-- The escape of a code unit is the code unit. -/
theorem reads_unitEscape {unit : Nat} (h : unit < 0x10000) :
    Reads translate (unitEscape unit) [unit] := by
  have hlength := Number.length_upperHex4 h
  have hmark : ∀ rest, (Number.upperHex4 unit ++ rest).takeWhile (· = 'u') = [] ∧
      (Number.upperHex4 unit ++ rest).dropWhile (· = 'u') = Number.upperHex4 unit ++ rest := by
    intro rest
    match hdigits : Number.upperHex4 unit, hlength with
    | d :: digits, _ =>
      have hhex : Number.isHexDigit d = true :=
        Number.isHexDigit_of_mem_upperHex4 (hdigits ▸ List.mem_cons_self)
      have hd : d ≠ 'u' := by
        rintro rfl
        nomatch hhex
      rw [List.cons_append, List.takeWhile_cons, List.dropWhile_cons, decide_eq_false hd]
      exact ⟨rfl, rfl⟩
  intro rest
  have hescape : unicodeEscape? ('u' :: (Number.upperHex4 unit ++ rest)) = some (unit, 5) := by
    unfold unicodeEscape?
    rw [List.takeWhile_cons_of_pos (by decide), List.dropWhile_cons_of_pos (by decide),
      (hmark rest).1, (hmark rest).2, codeUnit?_upperHex4 h]
    rfl
  show translateFrom 0 true ('\\' :: 'u' :: (Number.upperHex4 unit ++ rest)) = _
  rw [translateFrom, if_pos (by simp), hescape]
  have hskip := translateFrom_append ('u' :: Number.upperHex4 unit) rest
  rw [List.length_cons, hlength] at hskip
  show (translateFrom 5 true ('u' :: Number.upperHex4 unit ++ rest)).map _ = _
  rw [hskip]
  rfl

/-- What is left of a character's escape after the first step. -/
def LiteralStyle.units (style : LiteralStyle) (c : Char) : List Nat :=
  match style.letters.lookup c with
  | some letter => '\\'.toNat :: utf16 letter
  | none => utf16 c

/-- The first step takes what one character was written as for no part of another. -/
theorem LiteralStyle.reads_write (style : LiteralStyle) (c : Char) :
    Reads translate (style.write c) (style.units c) := by
  unfold LiteralStyle.units
  obtain ⟨letter, hlookup, hwrite⟩ | ⟨hnone, -, hwrite⟩ | ⟨hnone, -, hwrite⟩ := style.write_cases c
  · rw [hwrite, hlookup]
    exact reads_letter (style.unit _ (LiteralStyle.mem_of_lookup hlookup))
  · rw [hwrite, hnone]
    exact reads_character (LiteralStyle.ne_backslash hnone)
  · rw [hwrite, hnone]
    have hunits := Reads.flatMap fun unit (h : unit ∈ utf16 c) =>
      reads_unitEscape (lt_of_mem_utf16 h)
    rwa [List.flatMap_singleton'] at hunits

/-! ## What is written for Java -/

/-- In Java literals the letters are those of all literals, and every other printable character of
the first 128 stands for itself. -/
def javaStyle : LiteralStyle where
  letters := literalLetters
  plain c := isAscii c && !isControl c
  backslash := rfl
  unit := by decide

theorem javaChar_eq_write (c : Char) : javaChar c = javaStyle.write c := by
  have hlookup : javaStyle.letters.lookup c = literalLetters.lookup c := rfl
  have hplain : javaStyle.plain c = (isAscii c && !isControl c) := rfl
  unfold javaChar LiteralStyle.write
  rw [literalEscape?_eq, hlookup, hplain]
  cases literalLetters.lookup c with
  | some letter => rfl
  | none =>
    dsimp only
    by_cases hcontrol : isControl c = true
    · rw [if_pos hcontrol, hcontrol, flatMap_unitEscape hcontrol, Bool.not_true, Bool.and_false]
      rfl
    · rw [if_neg hcontrol, eq_false_of_ne_true hcontrol, Bool.not_false, Bool.and_true]
      rfl

theorem escapeJava_eq_flatMap (t : Text) : escapeJava t = t.flatMap javaStyle.write := by
  unfold escapeJava
  rw [funext javaChar_eq_write]

/-- The code units that mean something in a literal: line breaks, quotes and the backslash. -/
def javaSpecials : List Nat :=
  ['\n'.toNat, '\r'.toNat, '"'.toNat, '\''.toNat, '\\'.toNat]

/-- No code unit of a character without a letter means anything. -/
theorem not_mem_javaSpecials {c : Char} (hnone : literalLetters.lookup c = none) {unit : Nat}
    (hunit : unit ∈ utf16 c) : unit ∉ javaSpecials := by
  intro hspecial
  have hsmall : ∀ unit ∈ javaSpecials, unit < 0xD800 := by decide
  have hletter : ∀ unit ∈ javaSpecials, literalLetters.lookup (Char.ofNat unit) ≠ none := by decide
  have hc : c.toNat = unit := eq_of_mem_utf16 hunit (hsmall unit hspecial)
  apply hletter unit hspecial
  rw [← hc, Char.ofNat_toNat, hnone]

/-- The second step reads the letter of a character, or the code units that stand for it. -/
theorem reads_units (c : Char) : Reads javaString.read (javaStyle.units c) (utf16 c) := by
  unfold LiteralStyle.units
  split
  · next letter hlookup =>
    have hmem : (c, letter) ∈ literalLetters := LiteralStyle.mem_of_lookup hlookup
    have hread : ∀ entry ∈ literalLetters, utf16 entry.2 = [entry.2.toNat] ∧
        utf16 entry.1 = [entry.1.toNat] ∧
        javaEscaped? (Char.ofNat entry.2.toNat) = some entry.1 := by decide
    obtain ⟨hletter, hc, hescaped⟩ := hread _ hmem
    dsimp only at hletter hc hescaped
    rw [hletter, hc]
    refine Escaping.reads_escape fun rest => ?_
    show (match javaEscaped? (Char.ofNat letter.toNat) with
      | some c => some (c.toNat, 1)
      | none => octalEscape? (letter.toNat :: rest)) = _
    rw [hescaped]
    rfl
  · next hnone =>
    refine Escaping.reads_plain fun unit hunit => ?_
    have hspecial := not_mem_javaSpecials hnone hunit
    simp only [javaSpecials, List.mem_cons, List.not_mem_nil, or_false, not_or] at hspecial
    obtain ⟨hfeed, hreturn, hquote, -, hbackslash⟩ := hspecial
    refine ⟨hbackslash, ?_⟩
    show (decide _ && decide _ && decide _) = true
    rw [decide_eq_true hquote, decide_eq_true hfeed, decide_eq_true hreturn]
    rfl

/-- What is written for a text is read as the code units of the text. -/
theorem javaUnits?_escapeJava (t : Text) : javaUnits? (escapeJava t) = some (t.flatMap utf16) := by
  have htranslate : translate (t.flatMap javaStyle.write) = some (t.flatMap javaStyle.units) :=
    (Reads.flatMap fun c _ => javaStyle.reads_write c).whole rfl
  have hread : javaString.read (t.flatMap javaStyle.units) = some (t.flatMap utf16) :=
    (Reads.flatMap fun c _ => reads_units c).whole rfl
  unfold javaUnits?
  rw [escapeJava_eq_flatMap, htranslate, Option.bind_some, hread]

/-- Only printable characters of the first 128 are written. -/
theorem mem_escapeJava {t : Text} : ∀ c ∈ escapeJava t, 0x20 ≤ c.toNat ∧ c.toNat ≤ 0x7E := by
  rw [escapeJava_eq_flatMap]
  refine LiteralStyle.forall_mem_text (by decide) (fun c hplain => ?_) (fun unit c hc => ?_) t
  · simp only [javaStyle, isAscii, isControl, Bool.and_eq_true, Bool.not_eq_true',
      Bool.or_eq_false_iff, Bool.and_eq_false_iff, decide_eq_true_eq,
      decide_eq_false_iff_not] at hplain
    omega
  · rcases mem_unitEscape hc with rfl | rfl | hhex
    · decide
    · decide
    · have hrange := Number.toNat_of_isHexDigit hhex
      exact ⟨Nat.le_trans (by decide) hrange.1, Nat.le_trans hrange.2 (by decide)⟩

/-- The second text stands between the quotes of a literal for the first. -/
structure IsJavaText (t written : Text) : Prop where
  printable : ∀ c ∈ written, 0x20 ≤ c.toNat ∧ c.toNat ≤ 0x7E
  /-- Every double quote is escaped. -/
  quotes : ∀ before after, written = before ++ '"' :: after → Escapes before
  /-- Every Unicode escape has four digits and denotes no line break, quote or backslash. -/
  units : ∀ before after, written = before ++ '\\' :: 'u' :: after → ¬ Escapes before →
    ∃ unit, codeUnit? after = some unit ∧ unit ∉ javaSpecials
  /-- It is read as the code units of the text. -/
  decodes : javaUnits? written = some (t.flatMap utf16)
  /-- These spell the text. -/
  spells : (javaUnits? written).bind ofUtf16? = some t

theorem isJavaText_escapeJava (t : Text) : IsJavaText t (escapeJava t) where
  printable := mem_escapeJava
  quotes before after h := by
    rw [escapeJava_eq_flatMap] at h
    refine LiteralStyle.escapes_of_letter h rfl (by decide) fun unit hmem => ?_
    rcases mem_unitEscape hmem with h | h | h <;> nomatch h
  units before after h hbefore := by
    rw [escapeJava_eq_flatMap] at h
    obtain ⟨c, -, hnone, unit, hunit, hafter⟩ := LiteralStyle.unit_of_not_escapes h hbefore
    exact ⟨unit, hafter, not_mem_javaSpecials hnone hunit⟩
  decodes := javaUnits?_escapeJava t
  spells := by rw [javaUnits?_escapeJava, Option.bind_some, ofUtf16?_utf16]

/-! ## Sums of literals -/

/-- The segments that the lines `first` and `others` hold. A line before another ends in a closing
quote, and one after another starts with a plus and an opening quote. -/
def segmentsFrom (first : Text) : (others : List Text) → Option (List Text)
  | [] => some [first]
  | next :: others => do
    let segment ← stripEnd? ['"'] first
    let opened ← stripStart? ['+', '"'] next
    let segments ← segmentsFrom opened others
    return segment :: segments

/-- The segments of a sum of literals, which stand on lines of their own. -/
def segments? (t : Text) : Option (List Text) :=
  match splitOn (· = '\n') t with
  | [] => none
  | first :: others => segmentsFrom first others

theorem stripEnd?_append (mark t : Text) : stripEnd? mark (t ++ mark) = some t := by
  unfold stripEnd?
  rw [List.reverse_append, stripStart?_append, Option.map_some, List.reverse_reverse]

/-- What is opened on a line and joined to more lines falls apart into its segments. -/
theorem exists_splitOn_join {segments : List Text} (h : ∀ s ∈ segments, '\n' ∉ s) (segment : Text)
    (hsegment : '\n' ∉ segment) {opening : Text} (hopening : '\n' ∉ opening) :
    ∃ first others,
      splitOn (· = '\n') (opening ++ join ['"', '\n', '+', '"'] (segment :: segments)) =
        (opening ++ first) :: others ∧
      segmentsFrom first others = some (segment :: segments) := by
  induction segments generalizing segment opening with
  | nil =>
    refine ⟨segment, [], splitOn_eq_singleton fun c hc => decide_eq_false ?_, rfl⟩
    rintro rfl
    rcases List.mem_append.1 hc with hc | hc
    · exact hopening hc
    · exact hsegment hc
  | cons next segments ih =>
    rw [List.forall_mem_cons] at h
    have hplus : '\n' ∉ ['+', '"'] := by decide
    obtain ⟨first, others, hsplit, hfirst⟩ := ih h.2 next h.1 hplus
    have hjoin : opening ++ join ['"', '\n', '+', '"'] (segment :: next :: segments) =
        (opening ++ (segment ++ ['"'])) ++ '\n' ::
          (['+', '"'] ++ join ['"', '\n', '+', '"'] (next :: segments)) := by
      simp [join]
    have hline : splitOn (· = '\n') (opening ++ (segment ++ ['"'])) =
        [opening ++ (segment ++ ['"'])] := by
      refine splitOn_eq_singleton fun c hc => decide_eq_false ?_
      rintro rfl
      rcases List.mem_append.1 hc with hc | hc
      · exact hopening hc
      · rcases List.mem_append.1 hc with hc | hc
        · exact hsegment hc
        · exact absurd hc (by decide)
    refine ⟨segment ++ ['"'], (['+', '"'] ++ first) :: others, ?_, ?_⟩
    · rw [hjoin, splitOn_append_cons (by decide), hline, hsplit]
      rfl
    · rw [segmentsFrom, stripEnd?_append, stripStart?_append]
      show (segmentsFrom first others).bind _ = _
      rw [hfirst]
      rfl

/-- The segments that are joined are found again. -/
theorem segments?_join {segments : List Text} (hne : segments ≠ []) (h : ∀ s ∈ segments, '\n' ∉ s) :
    segments? (join ['"', '\n', '+', '"'] segments) = some segments := by
  match segments with
  | segment :: segments =>
    rw [List.forall_mem_cons] at h
    have hnil : '\n' ∉ ([] : Text) := List.not_mem_nil
    obtain ⟨first, others, hsplit, hfirst⟩ := exists_splitOn_join h.2 segment h.1 hnil
    unfold segments?
    rw [List.nil_append] at hsplit
    rw [hsplit]
    exact hfirst

/-- A text is written as its lines are, one after the other. -/
theorem flatten_escapeJava (t : Text) :
    ((splitLines t).map fun line => escapeJava line.text).flatten = escapeJava t := by
  have ht : (splitLines t).flatMap Line.text = t := joinLines_splitLines t
  unfold escapeJava
  rw [← List.flatMap_def, ← List.flatMap_assoc, ht]

theorem segments?_escapeJavaLines {t : Text} (h : t ≠ []) :
    segments? (escapeJavaLines t) = some ((splitLines t).map fun line => escapeJava line.text) := by
  refine segments?_join ?_ ?_
  · intro hnil
    have ht := joinLines_splitLines t
    rw [List.map_eq_nil_iff.1 hnil] at ht
    exact h ht.symm
  · intro segment hsegment hfeed
    obtain ⟨line, -, rfl⟩ := List.mem_map.1 hsegment
    exact absurd (mem_escapeJava _ hfeed).1 (by decide)

end SourcePreprocessor.Text

namespace SourcePreprocessor

open Text

/-- **What is written for Java is read as the text.** Without the split into lines the result stands
between the quotes of one literal. With it, a text that is not empty becomes one literal for each
line, the line's terminator included, and the texts of the literals make up the result without the
split. -/
theorem str2java_decodes (t : Text) :
    callFunction "str2java".toList [.str t, .bool false] = .ok (.str (escapeJava t)) ∧
    IsJavaText t (escapeJava t) ∧
    (t ≠ [] →
      callFunction "str2java".toList [.str t, .bool true] = .ok (.str (escapeJavaLines t)) ∧
      CutIntoLines t (splitLines t) ∧
      segments? (escapeJavaLines t) =
        some ((splitLines t).map fun line => escapeJava line.text) ∧
      ((splitLines t).map fun line => escapeJava line.text).flatten = escapeJava t) := by
  refine ⟨rfl, isJavaText_escapeJava t, fun h => ⟨rfl, cutIntoLines_splitLines t, ?_, ?_⟩⟩
  · exact segments?_escapeJavaLines h
  · exact flatten_escapeJava t

/-- Two lines: what looks like an escape in the text, a control character beyond ASCII, and a
character of two code units. -/
theorem str2java_decodes_twoLines :
    "\\u0022\u0085\r\n😀".toList ≠ [] ∧
      escapeJavaLines "\\u0022\u0085\r\n😀".toList =
        "\\\\u0022\\u0085\\r\\n\"\n+\"\\uD83D\\uDE00".toList ∧
      segments? "\\\\u0022\\u0085\\r\\n\"\n+\"\\uD83D\\uDE00".toList =
        some ["\\\\u0022\\u0085\\r\\n".toList, "\\uD83D\\uDE00".toList] := by
  have hne : "\\u0022\u0085\r\n😀".toList ≠ [] := by decide
  have hlines : escapeJavaLines "\\u0022\u0085\r\n😀".toList =
      "\\\\u0022\\u0085\\r\\n\"\n+\"\\uD83D\\uDE00".toList := by decide +kernel
  have hsegments := ((str2java_decodes _).2.2 hne).2.2.1
  refine ⟨hne, hlines, ?_⟩
  rw [← hlines, hsegments]
  decide +kernel

end SourcePreprocessor
