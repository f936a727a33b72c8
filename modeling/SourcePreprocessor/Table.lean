import SourcePreprocessor.Expr.Value
import SourcePreprocessor.Text.Case

/-!
# Variable tables

A table maps names to values without regard to the case of letters: every access lowers the name
first. A name stands in the table at most once.

> `(t.set a v).get? b` is `v` when the names agree in lower case, and `t.get? b` otherwise.

A table is asked for names and for their number only, so the order of its entries is never seen.
-/

namespace SourcePreprocessor

/-- Variables and their values, by name in lower case. -/
structure Table where
  entries : List (Text × Value)
  deriving DecidableEq

namespace Table

/-- The table without variables. -/
def empty : Table := ⟨[]⟩

/-- The value of a variable. -/
def get? (t : Table) (name : Text) : Option Value := t.entries.lookup (Text.lower name)

/-- The table without the variable. -/
def erase (t : Table) (name : Text) : Table :=
  ⟨t.entries.filter fun entry => entry.1 ≠ Text.lower name⟩

/-- The table with the variable bound to the value. -/
def set (t : Table) (name : Text) (v : Value) : Table :=
  ⟨(Text.lower name, v) :: (t.erase name).entries⟩

/-- Whether the variable is defined. -/
def contains (t : Table) (name : Text) : Bool := (t.get? name).isSome

/-- The number of variables. -/
def size (t : Table) : Nat := t.entries.length

theorem lookup_filter_ne (entries : List (Text × Value)) (a b : Text) :
    (entries.filter fun entry => entry.1 ≠ a).lookup b =
      if b = a then none else entries.lookup b := by
  induction entries with
  | nil => simp
  | cons entry entries ih =>
    obtain ⟨key, v⟩ := entry
    by_cases hk : key = a
    · subst hk
      by_cases hb : b = key
      · subst hb; simpa using ih
      · have hbk : (b == key) = false := by simpa using hb
        simpa [hb, List.lookup_cons, hbk] using ih
    · rw [List.filter_cons_of_pos (by simpa using hk), List.lookup_cons, List.lookup_cons]
      by_cases hb : b = key
      · subst hb; simp [hk]
      · have hbk : (b == key) = false := by simpa using hb
        simp only [hbk]
        exact ih

@[simp] theorem get?_erase (t : Table) (a b : Text) :
    (t.erase a).get? b = if Text.lower b = Text.lower a then none else t.get? b :=
  lookup_filter_ne t.entries (Text.lower a) (Text.lower b)

@[simp] theorem get?_set (t : Table) (a b : Text) (v : Value) :
    (t.set a v).get? b = if Text.lower b = Text.lower a then some v else t.get? b := by
  have h := get?_erase t a b
  unfold get? at h ⊢
  unfold set
  rw [List.lookup_cons]
  by_cases hb : Text.lower b = Text.lower a
  · simp [hb]
  · have hbk : (Text.lower b == Text.lower a) = false := by simpa using hb
    simp only [hbk, hb, if_false]
    rw [h, if_neg hb]

end Table

end SourcePreprocessor
