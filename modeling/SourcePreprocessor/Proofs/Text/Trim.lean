import Mathlib.Data.List.TakeWhile
import SourcePreprocessor.Proofs.Text.Parts

/-!
# Trimmed texts

A text is its trimmed text with blanks around it (`exists_blanks_trim`), and more blanks around a
text do not change what it is trimmed to. So what a text is trimmed to can be said without the way
in which it is found (`TrimsTo`):

> `trimsTo_iff`: there is one text without blanks at its ends that a text is with blanks around it,
> and trimming finds it.

A text is cut at the first character of a kind, whatever comes before it.
-/

namespace SourcePreprocessor.Text

/-! ## Blanks -/

theorem trimStart_blanks_append {blanks : Text} (h : ∀ c ∈ blanks, isBlank c = true) (t : Text) :
    trimStart (blanks ++ t) = trimStart t := List.dropWhile_append_of_pos h

theorem trimEnd_append_blanks {blanks : Text} (h : ∀ c ∈ blanks, isBlank c = true) (t : Text) :
    trimEnd (t ++ blanks) = trimEnd t := by
  unfold trimEnd
  rw [List.reverse_append, List.dropWhile_append_of_pos fun c hc => h c (List.mem_reverse.1 hc)]

theorem trim_blanks_append {blanks : Text} (h : ∀ c ∈ blanks, isBlank c = true) (t : Text) :
    trim (blanks ++ t) = trim t := congrArg trimEnd (trimStart_blanks_append h t)

theorem trim_append_blanks {blanks : Text} (h : ∀ c ∈ blanks, isBlank c = true) (t : Text) :
    trim (t ++ blanks) = trim t := by
  unfold trim trimStart
  rw [List.dropWhile_append]
  split
  -- the text is blank altogether
  · next hempty =>
    rw [List.isEmpty_iff.1 hempty, List.dropWhile_eq_nil_iff.2 h]
  · exact trimEnd_append_blanks h _

/-- A text is its trimmed text with blanks around it. -/
theorem exists_blanks_trim (t : Text) : ∃ before after, t = before ++ trim t ++ after ∧
    (∀ c ∈ before, isBlank c = true) ∧ ∀ c ∈ after, isBlank c = true := by
  have hend : trimStart t =
      trim t ++ ((trimStart t).reverse.takeWhile isBlank).reverse := by
    unfold trim trimEnd
    rw [← List.reverse_append, List.takeWhile_append_dropWhile, List.reverse_reverse]
  refine ⟨t.takeWhile isBlank, ((trimStart t).reverse.takeWhile isBlank).reverse, ?_, ?_, ?_⟩
  · rw [List.append_assoc, ← hend, takeWhile_append_trimStart]
  · exact fun c hc => List.mem_takeWhile_imp hc
  · exact fun c hc => List.mem_takeWhile_imp (List.mem_reverse.1 hc)

/-- Trimming leaves nothing to trim. -/
theorem trim_trim (t : Text) : trim (trim t) = trim t := by
  obtain ⟨before, after, ht, hbefore, hafter⟩ := exists_blanks_trim t
  have htrim := congrArg trim ht
  rw [trim_append_blanks hafter, trim_blanks_append hbefore] at htrim
  exact htrim.symm

/-- What is trimmed does not end in blanks. -/
theorem append_blanks_ne_trim {t blanks : Text} (hne : blanks ≠ [])
    (h : ∀ c ∈ blanks, isBlank c = true) (u : Text) : trim t ≠ u ++ blanks := by
  intro heq
  have hlength : (trim (u ++ blanks)).length ≤ u.length := by
    rw [trim_append_blanks h]
    exact (trim_part u).length_le
  rw [← heq, trim_trim, heq, List.length_append] at hlength
  exact hne (List.eq_nil_of_length_eq_zero (by omega))

/-- The text neither starts nor ends with a blank. -/
structure IsTrimmed (t : Text) : Prop where
  first : ∀ c rest, t = c :: rest → isBlank c = false
  last : ∀ front c, t = front ++ [c] → isBlank c = false

theorem isTrimmed_trim (t : Text) : IsTrimmed (trim t) where
  first c rest h := by
    -- without its trailing blanks a text starts as before
    obtain ⟨after, hafter⟩ := trimEnd_isPrefix (trimStart t)
    have hstart : trimStart t = c :: (rest ++ after) := by
      rw [← hafter, ← List.cons_append, ← h]
      rfl
    exact isBlank_of_trimStart_eq_cons hstart
  last front c h := by
    refine Bool.eq_false_iff.2 fun hc => ?_
    exact append_blanks_ne_trim (List.cons_ne_nil c []) (fun d hd => List.mem_singleton.1 hd ▸ hc)
      front h

theorem IsTrimmed.trim_eq {t : Text} (h : IsTrimmed t) : trim t = t := by
  obtain ⟨before, after, ht, hbefore, hafter⟩ := exists_blanks_trim t
  have hstart : before = [] := by
    cases before with
    | nil => rfl
    | cons c before =>
      have hfirst := h.first c (before ++ trim t ++ after) ht
      exact absurd (hbefore c List.mem_cons_self) (Bool.eq_false_iff.1 hfirst)
  have hend : after = [] := by
    rcases List.eq_nil_or_concat after with hnil | ⟨front, c, rfl⟩
    · exact hnil
    · rw [List.concat_eq_append] at ht hafter
      have hlast := h.last (before ++ trim t ++ front) c (by rw [List.append_assoc _ front, ← ht])
      exact absurd (hafter c List.mem_concat_self) (Bool.eq_false_iff.1 hlast)
  rw [hstart, hend, List.nil_append, List.append_nil] at ht
  exact ht.symm

/-- A text without blanks is trimmed. -/
theorem trim_of_not_blank {t : Text} (h : ∀ c ∈ t, isBlank c = false) : trim t = t :=
  IsTrimmed.trim_eq
    ⟨fun c _ ht => h c (ht ▸ List.mem_cons_self), fun _ c ht => h c (ht ▸ List.mem_concat_self)⟩

/-- The second text is the first without the blanks around it. -/
structure TrimsTo (t u : Text) : Prop where
  isTrimmed : IsTrimmed u
  around : ∃ before after, t = before ++ u ++ after ∧
    (∀ c ∈ before, isBlank c = true) ∧ ∀ c ∈ after, isBlank c = true

/-- A text is trimmed in one way. -/
theorem trimsTo_iff {t u : Text} : TrimsTo t u ↔ u = trim t := by
  constructor
  · rintro ⟨htrimmed, before, after, rfl, hbefore, hafter⟩
    rw [trim_append_blanks hafter, trim_blanks_append hbefore, htrimmed.trim_eq]
  · rintro rfl
    exact ⟨isTrimmed_trim t, exists_blanks_trim t⟩

/-! ## Cuts -/

/-- The text is cut at the first character of the kind. -/
theorem cutAt?_append {p : Char → Bool} {before : Text} (h : ∀ c ∈ before, p c = false)
    (rest : Text) : cutAt? p (before ++ rest) =
      (cutAt? p rest).map fun (first, c, after) => (before ++ first, c, after) := by
  induction before with
  | nil =>
    rw [List.nil_append]
    cases cutAt? p rest <;> rfl
  | cons c before ih =>
    rw [List.forall_mem_cons] at h
    rw [List.cons_append, cutAt?, h.1, if_neg Bool.false_ne_true, ih h.2, Option.map_map]
    rfl

theorem cutAt?_cons {p : Char → Bool} {c : Char} (h : p c = true) (rest : Text) :
    cutAt? p (c :: rest) = some ([], c, rest) := by
  rw [cutAt?, if_pos h]

theorem cutAt?_eq_none_iff {p : Char → Bool} {t : Text} :
    cutAt? p t = none ↔ ∀ c ∈ t, p c = false := by
  induction t with
  | nil => exact ⟨fun _ => nofun, fun _ => rfl⟩
  | cons c t ih =>
    rw [List.forall_mem_cons, cutAt?, ← ih]
    cases p c with
    | false => simp
    | true => simp

end SourcePreprocessor.Text
