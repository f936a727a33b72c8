/-!
# Text as a list of characters

Everything the preprocessor reads and writes is text: lines, names, tokens, values, paths. It is
kept as a list of Unicode scalar values, so that a column is a position in the list, a cut is a
decomposition of it, and every scan is a structural recursion.

This module holds the cuts that the rest of the library shares:

> `stripStart? mark t = some rest` exactly when `t = mark ++ rest`;
> `cutAt? p t = some (a, c, b)` gives the first character `c` of `t` with `p c`;
> `cut? mark t = some (a, b)` gives the first occurrence of `mark` in `t`.
-/

namespace SourcePreprocessor

/-- A text is its list of characters. -/
abbrev Text := List Char

namespace Text

/-- The text as a string, for messages. -/
def string (t : Text) : String := String.ofList t

/-- The number of bytes of the text in UTF-8. -/
def byteSize : Text → Nat
  | [] => 0
  | c :: t => c.utf8Size + byteSize t

/-- What follows `mark` when the text starts with it. -/
def stripStart? : (mark : Text) → Text → Option Text
  | [], t => some t
  | _ :: _, [] => none
  | m :: mark, c :: t => if m = c then stripStart? mark t else none

/-- What precedes `mark` when the text ends with it. -/
def stripEnd? (mark t : Text) : Option Text :=
  (stripStart? mark.reverse t.reverse).map List.reverse

/-- The first character that satisfies `p`, with the text before it and the text after it. -/
def cutAt? (p : Char → Bool) : Text → Option (Text × Char × Text)
  | [] => none
  | c :: t =>
    if p c then some ([], c, t)
    else (cutAt? p t).map fun (before, found, after) => (c :: before, found, after)

/-- The text before the first occurrence of `mark` and the text after it. -/
def cut? (mark : Text) : Text → Option (Text × Text)
  | [] => if mark.isEmpty then some ([], []) else none
  | c :: t =>
    match stripStart? mark (c :: t) with
    | some rest => some ([], rest)
    | none => (cut? mark t).map fun (before, after) => (c :: before, after)

/-- Whether `part` occurs in the text. -/
def contains (t part : Text) : Bool := (cut? part t).isSome

/-- The pieces of the text between the characters that satisfy `p`; there is always one more piece
than there are such characters. -/
def splitOn (p : Char → Bool) : Text → List Text
  | [] => [[]]
  | c :: t =>
    if p c then [] :: splitOn p t
    else match splitOn p t with
      | piece :: pieces => (c :: piece) :: pieces
      | [] => [[c]]

/-- The pieces with `separator` between each two of them. -/
def join (separator : Text) : List Text → Text
  | [] => []
  | [t] => t
  | t :: u :: ts => t ++ separator ++ join separator (u :: ts)

/-! ## The cuts decompose the text -/

theorem stripStart?_append (mark rest : Text) : stripStart? mark (mark ++ rest) = some rest := by
  induction mark with
  | nil => rfl
  | cons m mark ih => simp [stripStart?, ih]

theorem eq_append_of_stripStart? {mark t rest : Text} (h : stripStart? mark t = some rest) :
    t = mark ++ rest := by
  induction mark generalizing t with
  | nil => simpa [stripStart?] using h
  | cons m mark ih =>
    cases t with
    | nil => simp [stripStart?] at h
    | cons c t =>
      by_cases hmc : m = c
      · subst hmc
        simp only [stripStart?, if_true] at h
        rw [ih h, List.cons_append]
      · simp [stripStart?, hmc] at h

/-- A text starts with `mark` exactly when it is `mark` followed by something. -/
theorem stripStart?_eq_some_iff {mark t rest : Text} :
    stripStart? mark t = some rest ↔ t = mark ++ rest :=
  ⟨eq_append_of_stripStart?, fun h => h ▸ stripStart?_append mark rest⟩

theorem eq_append_of_cutAt? {p : Char → Bool} {t before after : Text} {c : Char}
    (h : cutAt? p t = some (before, c, after)) :
    t = before ++ c :: after ∧ p c = true ∧ ∀ x ∈ before, p x = false := by
  induction t generalizing before with
  | nil => simp [cutAt?] at h
  | cons d t ih =>
    by_cases hd : p d
    · simp only [cutAt?, hd, if_true, Option.some.injEq, Prod.mk.injEq] at h
      obtain ⟨rfl, rfl, rfl⟩ := h
      simp [hd]
    · simp only [cutAt?, hd, Bool.false_eq_true, if_false, Option.map_eq_some_iff] at h
      obtain ⟨⟨b, x, a⟩, hc, heq⟩ := h
      simp only [Prod.mk.injEq] at heq
      obtain ⟨rfl, rfl, rfl⟩ := heq
      obtain ⟨ht, hx, hb⟩ := ih hc
      refine ⟨by rw [ht, List.cons_append], hx, ?_⟩
      intro y hy
      rcases List.mem_cons.1 hy with rfl | hy
      · simpa using hd
      · exact hb y hy

/-- A cut at `mark` puts the text back together as `before ++ mark ++ after`. -/
theorem eq_append_of_cut? {mark t before after : Text} (h : cut? mark t = some (before, after)) :
    t = before ++ mark ++ after := by
  induction t generalizing before with
  | nil =>
    by_cases hm : mark.isEmpty
    · simp only [cut?, hm, if_true, Option.some.injEq, Prod.mk.injEq] at h
      obtain ⟨rfl, rfl⟩ := h
      simp [List.isEmpty_iff.1 hm]
    · simp [cut?, hm] at h
  | cons c t ih =>
    unfold cut? at h
    split at h
    · next rest hs =>
      simp only [Option.some.injEq, Prod.mk.injEq] at h
      obtain ⟨rfl, rfl⟩ := h
      simpa using eq_append_of_stripStart? hs
    · simp only [Option.map_eq_some_iff] at h
      obtain ⟨⟨b, a⟩, hc, heq⟩ := h
      simp only [Prod.mk.injEq] at heq
      obtain ⟨rfl, rfl⟩ := heq
      rw [ih hc]
      simp

end Text

end SourcePreprocessor
