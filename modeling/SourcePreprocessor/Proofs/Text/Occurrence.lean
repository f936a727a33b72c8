import Mathlib.Data.List.Infix
import SourcePreprocessor.Text.Basic

/-!
# Where a mark stands in a text

`cut?` cuts a text at the first place where a mark stands. In general such a place can reach into
the text before it. A mark in which no character stands twice cannot overlap itself, and then the
first place is simply the one that the mark does not occur before:

> `prefix_of_first`: every place of the mark comes at or after that one;
> `cut?_eq_some_iff`: so there is one such place, and `cut?` finds it.
-/

namespace SourcePreprocessor.Text

variable {mark t before after other rest : Text}

/-- A text that cannot be cut has the mark nowhere. -/
theorem cut?_eq_none_iff : cut? mark t = none ↔ ¬ mark <:+: t := by
  induction t with
  | nil =>
    rw [List.infix_nil, ← List.isEmpty_iff]
    unfold cut?
    split
    next hempty => exact ⟨fun h => absurd h (Option.some_ne_none _), fun h => absurd hempty h⟩
    next hempty => exact ⟨fun _ => hempty, fun _ => rfl⟩
  | cons c t ih =>
    rw [List.infix_cons_iff, not_or, cut?]
    cases hstrip : stripStart? mark (c :: t) with
    | some rest =>
      have hlead : mark <+: c :: t := ⟨rest, (eq_append_of_stripStart? hstrip).symm⟩
      exact ⟨fun h => absurd h (Option.some_ne_none _), fun h => absurd hlead h.1⟩
    | none =>
      have hlead : ¬ mark <+: c :: t := by
        rintro ⟨rest, hrest⟩
        rw [stripStart?_eq_some_iff.2 hrest.symm] at hstrip
        exact Option.some_ne_none _ hstrip
      rw [Option.map_eq_none_iff, ih]
      exact ⟨fun h => ⟨hlead, h⟩, fun h => h.2⟩

/-- The mark does not stand before the place of the cut. -/
theorem not_infix_of_cut? (hne : mark ≠ []) (h : cut? mark t = some (before, after)) :
    ¬ mark <:+: before := by
  induction t generalizing before with
  | nil => simp [cut?, hne] at h
  | cons c t ih =>
    rw [cut?] at h
    cases hstrip : stripStart? mark (c :: t) with
    | some rest =>
      rw [hstrip] at h
      obtain ⟨rfl, -⟩ := Prod.mk.inj (Option.some.inj h)
      exact fun hpart => hne (List.infix_nil.1 hpart)
    | none =>
      rw [hstrip] at h
      obtain ⟨⟨b, a⟩, hcut, heq⟩ := Option.map_eq_some_iff.1 h
      obtain ⟨rfl, rfl⟩ := Prod.mk.inj heq
      rw [List.infix_cons_iff, not_or]
      refine ⟨?_, ih hcut⟩
      -- at the start of the text it would have been found
      rintro ⟨x, hx⟩
      have hstart : c :: t = mark ++ (x ++ mark ++ a) := by
        rw [eq_append_of_cut? hcut, ← List.cons_append, ← List.cons_append, ← hx]
        simp only [List.append_assoc]
      rw [stripStart?_eq_some_iff.2 hstart] at hstrip
      exact Option.some_ne_none _ hstrip

/-- A mark with no character twice does not stand earlier than where it stands with no occurrence
before it. -/
theorem prefix_of_first (hnodup : mark.Nodup) (hfirst : ¬ mark <:+: before)
    (h : before ++ mark ++ rest = other ++ mark ++ after) : before <+: other := by
  rw [List.append_assoc, List.append_assoc, List.append_eq_append_iff] at h
  obtain ⟨x, rfl, -⟩ | ⟨x, rfl, h⟩ := h
  · exact List.prefix_append before x
  · -- otherwise the earlier one overlaps the other, from `x` on
    obtain ⟨y, rfl, -⟩ | ⟨y, hy, hrest⟩ := List.append_eq_append_iff.1 h
    · exact absurd ⟨other, y, List.append_assoc other mark y⟩ hfirst
    · cases x with
      | nil =>
        rw [List.append_nil]
      | cons c x =>
        cases y with
        | nil =>
          rw [List.append_nil] at hy
          exact absurd (hy ▸ (List.suffix_append other mark).isInfix) (hy ▸ hfirst)
        | cons d y =>
          -- both start with the first character of the mark
          have hd : d = c := by
            rw [hy, List.cons_append, List.cons_append] at hrest
            exact (List.cons.inj hrest).1.symm
          rw [hy, hd, List.nodup_append] at hnodup
          exact absurd rfl (hnodup.2.2 c List.mem_cons_self c List.mem_cons_self)

/-- There is only one place that the mark does not occur before. -/
theorem first_unique (hnodup : mark.Nodup) (hfirst : ¬ mark <:+: before)
    (hother : ¬ mark <:+: other) (h : before ++ mark ++ rest = other ++ mark ++ after) :
    before = other ∧ rest = after := by
  have hlength : before.length = other.length :=
    Nat.le_antisymm (prefix_of_first hnodup hfirst h).length_le
      (prefix_of_first hnodup hother h.symm).length_le
  rw [List.append_assoc, List.append_assoc] at h
  obtain ⟨rfl, hrest⟩ := List.append_inj h hlength
  exact ⟨rfl, List.append_cancel_left hrest⟩

theorem cut?_eq_some_iff (hnodup : mark.Nodup) (hne : mark ≠ []) :
    cut? mark t = some (before, after) ↔ t = before ++ mark ++ after ∧ ¬ mark <:+: before := by
  constructor
  · exact fun h => ⟨eq_append_of_cut? h, not_infix_of_cut? hne h⟩
  · rintro ⟨rfl, hfirst⟩
    cases hcut : cut? mark (before ++ mark ++ after) with
    | none => exact absurd (List.infix_append before mark after) (cut?_eq_none_iff.1 hcut)
    | some found =>
      obtain ⟨b, a⟩ := found
      obtain ⟨rfl, rfl⟩ := first_unique hnodup hfirst (not_infix_of_cut? hne hcut)
        (eq_append_of_cut? hcut)
      rfl

end SourcePreprocessor.Text
