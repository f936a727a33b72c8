import SourcePreprocessor.Text.Basic

/-!
# The order of texts

Texts are ordered by the code of the first character that differs, and a text stands before those it
is the start of. Comparisons in expressions and the order of files in a directory both use it. It is
also the order of their bytes in UTF-8, so names can be compared before or after they are encoded.
-/

namespace SourcePreprocessor.Text

/-- The order of two texts. -/
def compare : Text → Text → Ordering
  | [], [] => .eq
  | [], _ :: _ => .lt
  | _ :: _, [] => .gt
  | a :: t, b :: u => (Ord.compare a.toNat b.toNat).then (compare t u)

/-- Texts that are equal in the order are equal. -/
theorem compare_eq_eq_iff {t u : Text} : compare t u = .eq ↔ t = u := by
  induction t generalizing u with
  | nil => cases u <;> simp [compare]
  | cons a t ih =>
    cases u with
    | nil => simp [compare]
    | cons b u =>
      simp only [compare, Ordering.then_eq_eq, ih, Nat.compare_eq_eq, List.cons.injEq]
      constructor
      · rintro ⟨h, rfl⟩
        exact ⟨Char.toNat_inj.1 h, rfl⟩
      · rintro ⟨rfl, rfl⟩
        exact ⟨rfl, rfl⟩

end SourcePreprocessor.Text
