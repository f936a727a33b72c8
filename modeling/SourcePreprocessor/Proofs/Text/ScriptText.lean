import SourcePreprocessor.Proofs.Text.Literals
import SourcePreprocessor.Proofs.Text.Markup

/-!
# Text inside scripts

A literal of a script is read in one step, and its page is read before it: an end tag in the literal
would end the script. So besides the quotes every slash is escaped, and no `</` is left.

> `pageText_decodes`: what is written for XML, for a web page or for a script is read back as the
> text and holds nothing that means something there.
-/

namespace SourcePreprocessor.Text

/-! ## How a literal is read -/

/-- The character that a character after a backslash stands for. Those without a meaning of their
own stand for themselves, but digits and the letter `x` begin other escapes, and line breaks stand
for nothing. -/
def scriptEscaped? (c : Char) : Option Char :=
  match c with
  | 'b' => some '\x08'
  | 't' => some '\t'
  | 'n' => some '\n'
  | 'v' => some '\x0b'
  | 'f' => some '\x0c'
  | 'r' => some '\r'
  | c => if c.isDigit || c ∈ ['x', '\n', '\r', '\u2028', '\u2029'] then none else some c

/-- The escapes of a script's literal. A line break that is not escaped would end the literal. -/
def scriptString : Escaping Char where
  mark := '\\'
  escape?
    | [] => none
    | c :: rest =>
      if c = 'u' then ((codeUnit? rest).bind scalar?).map (·, 5)
      else (scriptEscaped? c).map (·, 1)
  plain c := c ≠ '\n' && c ≠ '\r'

theorem escape?_unit (rest : Text) :
    scriptString.escape? ('u' :: rest) = ((codeUnit? rest).bind scalar?).map (·, 5) := by
  unfold scriptString
  dsimp only
  rw [if_pos rfl]

/-! ## What is written for scripts -/

/-- In scripts the slash has a letter too, and every other character that is no control character
stands for itself. -/
def scriptStyle : LiteralStyle where
  letters := ('/', '/') :: literalLetters
  plain c := !isControl c
  backslash := rfl
  unit := by decide

theorem scriptChar_eq_write (c : Char) : scriptChar c = scriptStyle.write c := by
  by_cases hslash : c = '/'
  · rw [hslash]
    rfl
  · have hlookup : scriptStyle.letters.lookup c = literalLetters.lookup c := by
      show (('/', '/') :: literalLetters).lookup c = _
      rw [List.lookup_cons, beq_eq_false_iff_ne.2 hslash]
    have hplain : scriptStyle.plain c = !isControl c := rfl
    unfold scriptChar LiteralStyle.write
    rw [if_neg hslash, literalEscape?_eq, hlookup, hplain]
    cases literalLetters.lookup c with
    | some letter => rfl
    | none =>
      dsimp only
      by_cases hcontrol : isControl c = true
      · rw [if_pos hcontrol, hcontrol, flatMap_unitEscape hcontrol]
        rfl
      · rw [if_neg hcontrol, eq_false_of_ne_true hcontrol]
        rfl

theorem escapeScript_eq_flatMap (t : Text) : escapeScript t = t.flatMap scriptStyle.write := by
  unfold escapeScript
  rw [funext scriptChar_eq_write]

/-- A character is read from what it is written as. -/
theorem reads_scriptWrite (c : Char) : Reads scriptString.read (scriptStyle.write c) [c] := by
  obtain ⟨letter, hlookup, hwrite⟩ | ⟨hnone, hplain, hwrite⟩ | ⟨-, hplain, hwrite⟩ :=
    scriptStyle.write_cases c
  · have hletters : ∀ entry ∈ scriptStyle.letters,
        entry.2 ≠ 'u' ∧ scriptEscaped? entry.2 = some entry.1 := by decide
    obtain ⟨hu, hescaped⟩ := hletters _ (LiteralStyle.mem_of_lookup hlookup)
    rw [hwrite]
    refine Escaping.reads_escape fun rest => ?_
    show (if letter = 'u' then _ else (scriptEscaped? letter).map (·, 1)) = _
    rw [if_neg hu, hescaped]
    rfl
  · have hcontrol : isControl c = false := by
      rw [← Bool.not_eq_true']
      exact hplain
    rw [hwrite]
    refine Escaping.reads_plain fun d hd => ?_
    obtain rfl := List.mem_singleton.1 hd
    refine ⟨LiteralStyle.ne_backslash hnone, ?_⟩
    show (decide _ && decide _) = true
    rw [Bool.and_eq_true, decide_eq_true_eq, decide_eq_true_eq]
    constructor
    all_goals
      rintro rfl
      nomatch hcontrol
  · have hcontrol : isControl c = true := by
      rw [← Bool.not_eq_false']
      exact hplain
    have hsmall : c.toNat < 0x10000 := Nat.lt_trans (toNat_of_isControl hcontrol) (by decide)
    rw [hwrite, flatMap_unitEscape hcontrol]
    refine Escaping.reads_escape fun rest => ?_
    rw [List.cons_append, escape?_unit, codeUnit?_upperHex4 hsmall, Option.bind_some,
      scalar?_toNat, List.length_cons, Number.length_upperHex4 hsmall]
    rfl

/-- No control character is written. -/
theorem isControl_of_mem_escapeScript {t : Text} : ∀ c ∈ escapeScript t, isControl c = false := by
  rw [escapeScript_eq_flatMap]
  refine LiteralStyle.forall_mem_text (by decide) (fun c hplain => ?_) (fun unit c hc => ?_) t
  · rw [← Bool.not_eq_true']
    exact hplain
  · rcases mem_unitEscape hc with rfl | rfl | hhex
    · rfl
    · rfl
    · exact isControl_of_isHexDigit hhex

/-- The second text stands between the quotes of a script's literal for the first. -/
structure IsScriptText (t written : Text) : Prop where
  /-- Every quote and every slash is escaped. -/
  escaped : ∀ before c after, written = before ++ c :: after → c ∈ ['"', '\'', '/'] → Escapes before
  printable : ∀ c ∈ written, isControl c = false
  /-- Nothing in it is an end tag. -/
  tags : ¬ ['<', '/'] <:+: written
  /-- It is read as the first text. -/
  decodes : scriptString.read written = some t

theorem escapes_escapeScript {t before after : Text} {c : Char}
    (h : escapeScript t = before ++ c :: after) (hc : c ∈ ['"', '\'', '/']) : Escapes before := by
  have hspecial : (scriptStyle.letters.lookup c).isSome = true ∧ c ≠ '\\' ∧ c ≠ 'u' ∧
      Number.isHexDigit c = false := by
    simp only [List.mem_cons, List.not_mem_nil, or_false] at hc
    rcases hc with rfl | rfl | rfl <;> decide
  obtain ⟨hletter, hbackslash, hu, hhex⟩ := hspecial
  rw [escapeScript_eq_flatMap] at h
  refine LiteralStyle.escapes_of_letter h hletter hbackslash fun unit hmem => ?_
  rcases mem_unitEscape hmem with hmem | hmem | hmem
  · exact hbackslash hmem
  · exact hu hmem
  · rw [hhex] at hmem
    nomatch hmem

theorem isScriptText_escapeScript (t : Text) : IsScriptText t (escapeScript t) where
  escaped _ _ _ := escapes_escapeScript
  printable := isControl_of_mem_escapeScript
  tags := by
    rintro ⟨before, after, h⟩
    have hsplit : escapeScript t = before ++ ['<'] ++ '/' :: after := by rw [← h]; simp
    exact not_escapes_concat before (by decide) (escapes_escapeScript hsplit (by decide))
  decodes := by
    have hreads := Reads.flatMap fun c (_ : c ∈ t) => reads_scriptWrite c
    rw [List.flatMap_singleton'] at hreads
    rw [escapeScript_eq_flatMap]
    exact hreads.whole rfl

/-- What is read back was written for one text only. -/
theorem injective_of_decodes {read : Text → Option Text} {write : Text → Text}
    (h : ∀ t, read (write t) = some t) : Function.Injective write := by
  intro t u heq
  have hread := h t
  rw [heq, h u] at hread
  exact (Option.some.inj hread).symm

/-- **What is written for XML, web pages and scripts is read back as the text**, and means nothing
else where it stands. -/
theorem pageText_decodes :
    Function.Injective escapeXml ∧ Function.Injective escapeHtml ∧
    Function.Injective escapeScript ∧
    ∀ t, xml.Encodes t (escapeXml t) ∧ html.Encodes t (escapeHtml t) ∧
      IsScriptText t (escapeScript t) :=
  ⟨injective_of_decodes fun t => (xml_encodes t).decodes,
    injective_of_decodes fun t => (html_encodes t).decodes,
    injective_of_decodes fun t => (isScriptText_escapeScript t).decodes,
    fun t => ⟨xml_encodes t, html_encodes t, isScriptText_escapeScript t⟩⟩

end SourcePreprocessor.Text
