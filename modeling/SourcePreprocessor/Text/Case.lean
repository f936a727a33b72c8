import SourcePreprocessor.Text.Basic
import SourcePreprocessor.Text.CaseRange

/-!
# Lower case

Names, file extensions and case-insensitive comparisons go through the full lower-case mapping of
text. It differs from a mapping of characters in two places: the capital I with a dot above becomes
two characters, and a capital sigma becomes a final sigma at the end of a word.

Main statement: on ASCII text the mapping is `Char.toLower` on every character
(`lower_eq_map_toLower`).
-/

namespace SourcePreprocessor.Text

private def inRanges (ranges : List (Nat × Nat)) (c : Char) : Bool :=
  ranges.any fun (first, last) => first ≤ c.toNat && c.toNat ≤ last

/-- Whether a character is passed over when the surroundings of a sigma are examined. -/
def isCaseIgnorable (c : Char) : Bool := inRanges caseIgnorableRanges c

/-- Whether a character that is not passed over has a case. -/
def isCased (c : Char) : Bool := inRanges casedRanges c

/-- The lower-case form of a character on its own. -/
def lowerChar (c : Char) : Text :=
  if c.toNat < 128 then [c.toLower]
  else if c = '\u0130' then ['i', '\u0307']
  else match lowerRanges.findSome? (·.lower? c.toNat) with
    | some n => [Char.ofNat n]
    | none => [c]

/-- Whether the first character that is not passed over has a case. -/
def startsCased (t : Text) : Bool :=
  match t.dropWhile isCaseIgnorable with
  | c :: _ => isCased c
  | [] => false

/-- The lower-case form of a text that follows `before`, given reversed. A capital sigma that a
cased character precedes and none follows ends a word. -/
def lowerAfter (before : Text) : Text → Text
  | [] => []
  | c :: rest =>
    (if c = '\u03a3' then [if startsCased before && !startsCased rest then '\u03c2' else '\u03c3']
      else lowerChar c) ++ lowerAfter (c :: before) rest

/-- The lower-case form of a text. -/
def lower (t : Text) : Text := lowerAfter [] t

theorem lowerAfter_eq_map_toLower (before t : Text) (h : ∀ c ∈ t, c.toNat < 128) :
    lowerAfter before t = t.map Char.toLower := by
  induction t generalizing before with
  | nil => rfl
  | cons c t ih =>
    have hc : c.toNat < 128 := h c (by simp)
    have hs : c ≠ '\u03a3' := by rintro rfl; revert hc; decide
    simp only [lowerAfter, hs, if_false, lowerChar, hc, if_true, List.map_cons]
    rw [ih _ fun x hx => h x (by simp [hx])]
    rfl

/-- On ASCII text lower-casing works character by character. -/
theorem lower_eq_map_toLower (t : Text) (h : ∀ c ∈ t, c.toNat < 128) :
    lower t = t.map Char.toLower :=
  lowerAfter_eq_map_toLower [] t h

end SourcePreprocessor.Text
