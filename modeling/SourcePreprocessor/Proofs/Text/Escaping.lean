import SourcePreprocessor.Text.Basic

/-!
# Texts with escapes

Whatever is written part by part can be read part by part, if a reader takes just what one part was
written as, whatever comes after it.

> `Reads read written values`: whatever follows, `written` is read as the values.

Such statements compose, so a text is read back as soon as each part of it is (`Reads.flatMap`), and
a place in the text is a place in what one part was written as (`exists_written`).

In a text with escapes a mark begins each escape and every other symbol stands for itself. Formats
differ in the mark, in what may follow it and in what must not stand for itself (`Escaping`), and
are all read from left to right in the same way.
-/

namespace SourcePreprocessor.Text

variable {α β γ : Type}

/-- Whatever follows, `written` is read as the values. -/
def Reads (read : List α → Option (List β)) (written : List α) (values : List β) : Prop :=
  ∀ rest, read (written ++ rest) = (read rest).map (values ++ ·)

section Reads

variable {read : List α → Option (List β)}

theorem reads_nil : Reads read [] [] := by
  intro rest
  show read rest = (read rest).map _
  cases read rest <;> rfl

theorem Reads.append {written written' : List α} {values values' : List β}
    (h : Reads read written values) (h' : Reads read written' values') :
    Reads read (written ++ written') (values ++ values') := by
  intro rest
  rw [List.append_assoc, h, h', Option.map_map]
  congr 1
  funext others
  exact (List.append_assoc values values' others).symm

/-- What is written part by part is read part by part. -/
theorem Reads.flatMap {parts : List γ} {write : γ → List α} {value : γ → List β}
    (h : ∀ part ∈ parts, Reads read (write part) (value part)) :
    Reads read (parts.flatMap write) (parts.flatMap value) := by
  induction parts with
  | nil => exact reads_nil
  | cons part parts ih =>
    rw [List.forall_mem_cons] at h
    exact h.1.append (ih h.2)

/-- A text is read as its values where it ends, if nothing is read as nothing. -/
theorem Reads.whole {written : List α} {values : List β} (h : Reads read written values)
    (hnil : read [] = some []) : read written = some values := by
  have hend := h []
  rw [List.append_nil, hnil] at hend
  rw [hend]
  exact congrArg some (List.append_nil values)

end Reads

/-- A place in what is written part by part is a place in what one of the parts is written as. -/
theorem exists_written {write : γ → List α} {parts : List γ} {before after : List α} {a : α}
    (h : parts.flatMap write = before ++ a :: after) :
    ∃ done part later left right, parts = done ++ part :: later ∧
      write part = left ++ a :: right ∧ before = done.flatMap write ++ left ∧
      after = right ++ later.flatMap write := by
  induction parts generalizing before with
  | nil => exact absurd h.symm (List.append_ne_nil_of_right_ne_nil _ (List.cons_ne_nil _ _))
  | cons part parts ih =>
    rw [List.flatMap_cons] at h
    rcases List.append_eq_append_iff.1 h with ⟨left, hbefore, hrest⟩ | ⟨right, hpart, hrest⟩
    -- the place is after the first part, or in it
    · obtain ⟨done, found, later, u, v, hparts, hfound, hleft, hafter⟩ := ih hrest
      refine ⟨part :: done, found, later, u, v, ?_, hfound, ?_, hafter⟩
      · rw [hparts, List.cons_append]
      · rw [hbefore, hleft, List.flatMap_cons, List.append_assoc]
    · cases right with
      | nil =>
        -- the first part ends right before the place
        have hlater : parts.flatMap write = [] ++ a :: after := hrest.symm
        obtain ⟨done, found, later, u, v, hparts, hfound, hleft, hafter⟩ := ih hlater
        refine ⟨part :: done, found, later, u, v, ?_, hfound, ?_, hafter⟩
        · rw [hparts, List.cons_append]
        · rw [List.append_nil] at hpart
          rw [List.flatMap_cons, List.append_assoc, ← hleft, hpart, List.append_nil]
      | cons b right =>
        obtain ⟨rfl, hafter⟩ := List.cons.inj hrest
        exact ⟨[], part, parts, before, right, rfl, hpart, rfl, hafter⟩

/-! ## Escapes -/

/-- A way to write symbols, some of them with an escape. -/
structure Escaping (α : Type) where
  /-- What begins an escape. -/
  mark : α
  /-- What the escape stands for that goes on with the given symbols after its mark, and how many of
  them belong to it. -/
  escape? : List α → Option (α × Nat)
  /-- Whether a symbol may stand for itself. The mark never does. -/
  plain : α → Bool

namespace Escaping

variable [DecidableEq α] (e : Escaping α)

/-- The symbols that are written, where the first `skip` belong to an escape already read. -/
def readFrom : (skip : Nat) → List α → Option (List α)
  | 0, [] => some []
  | _ + 1, [] => none
  | skip + 1, _ :: rest => readFrom skip rest
  | 0, a :: rest =>
    if a = e.mark then
      match e.escape? rest with
      | some (value, length) => (readFrom length rest).map (value :: ·)
      | none => none
    else if e.plain a then (readFrom 0 rest).map (a :: ·)
    else none

/-- The symbols that are written. -/
def read (written : List α) : Option (List α) := e.readFrom 0 written

variable {e}

/-- Symbols other than the mark that may stand for themselves do. -/
theorem reads_plain {written : List α}
    (h : ∀ a ∈ written, a ≠ e.mark ∧ e.plain a = true) : Reads e.read written written := by
  have hsingle : ∀ a ∈ written, Reads e.read [a] [a] := by
    intro a ha rest
    show e.readFrom 0 (a :: rest) = _
    rw [readFrom, if_neg (h a ha).1, if_pos (h a ha).2]
    rfl
  have hwritten := Reads.flatMap hsingle
  rwa [List.flatMap_singleton'] at hwritten

/-- The symbols of an escape already read are passed over. -/
theorem readFrom_append (body rest : List α) :
    e.readFrom body.length (body ++ rest) = e.read rest := by
  induction body with
  | nil => rfl
  | cons a body ih => exact ih

/-- An escape stands for its value. -/
theorem reads_escape {body : List α} {value : α}
    (h : ∀ rest, e.escape? (body ++ rest) = some (value, body.length)) :
    Reads e.read (e.mark :: body) [value] := by
  intro rest
  show e.readFrom 0 (e.mark :: (body ++ rest)) = _
  rw [readFrom, if_pos rfl, h]
  show (e.readFrom body.length (body ++ rest)).map _ = _
  rw [readFrom_append]
  rfl

end Escaping

end SourcePreprocessor.Text
