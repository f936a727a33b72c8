import SourcePreprocessor.Text.Basic

/-!
# Blank and control characters

Two classes of characters decide how text is read: the *blank* characters (the property White_Space)
separate names and are trimmed from arguments, and the *control* characters (the category Cc) are
written as escapes. Both are fixed lists of ranges.

Main statement: trimming only removes blanks, and leaves none at the trimmed end.
-/

namespace SourcePreprocessor.Text

/-- Whether a character is white space. -/
def isBlank (c : Char) : Bool :=
  let n := c.toNat
  (0x09 ≤ n && n ≤ 0x0D) || n == 0x20 || n == 0x85 || n == 0xA0 || n == 0x1680 ||
    (0x2000 ≤ n && n ≤ 0x200A) || n == 0x2028 || n == 0x2029 || n == 0x202F || n == 0x205F ||
    n == 0x3000

/-- Whether a character is a control character. -/
def isControl (c : Char) : Bool :=
  c.toNat ≤ 0x1F || (0x7F ≤ c.toNat && c.toNat ≤ 0x9F)

/-- Whether a character is one of the first 128. -/
def isAscii (c : Char) : Bool := c.toNat < 128

/-- The text without its leading blanks. -/
def trimStart (t : Text) : Text := t.dropWhile isBlank

/-- The text without its trailing blanks. -/
def trimEnd (t : Text) : Text := (t.reverse.dropWhile isBlank).reverse

/-- The text without its leading and trailing blanks. -/
def trim (t : Text) : Text := trimEnd (trimStart t)

/-- The number of blanks that lead the text. -/
def leadingBlanks (t : Text) : Nat := (t.takeWhile isBlank).length

theorem takeWhile_append_trimStart (t : Text) : t.takeWhile isBlank ++ trimStart t = t :=
  List.takeWhile_append_dropWhile

/-- What leads a text after `trimStart` is not blank. -/
theorem isBlank_of_trimStart_eq_cons {t rest : Text} {c : Char} (h : trimStart t = c :: rest) :
    isBlank c = false := by
  induction t with
  | nil => simp [trimStart] at h
  | cons d t ih =>
    by_cases hd : isBlank d
    · exact ih (by simpa [trimStart, hd] using h)
    · simp only [trimStart, List.dropWhile_cons, hd, Bool.false_eq_true, if_false,
        List.cons.injEq] at h
      simpa [← h.1] using hd

end SourcePreprocessor.Text
