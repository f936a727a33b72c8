import Mathlib.Data.List.Forall2
import SourcePreprocessor.Pass.Line
import SourcePreprocessor.Proofs.Except
import SourcePreprocessor.Proofs.Text.Occurrence

/-!
# Insertions are replaced once, from left to right

The pass takes a text apart character by character. Here the text is cut by its marks alone: into
*slots*, each a text that stays and the expression of the insertion after it, and what follows the
last of them. `CutAtMarks` says of such a cut that every opening mark taken is the first one and
every closing mark the first one after it.

> `CutAtMarks.unique`: a text is cut in one way only;
> `exists_cutAtMarks`: and every text can be cut;
> `insertValues_decomposes`: what the text becomes is the texts that stay with the values between
> them, or the failure of the first expression that has no value.

No character stands twice in a mark, so a mark cannot overlap itself. Opening and closing marks can
overlap each other, as in a text that opens and closes with one dollar sign; there only the opening
mark counts.
-/

namespace SourcePreprocessor

/-- A text that stays, and the expression of the insertion after it. -/
structure Slot where
  plain : Text
  body : Text

namespace Slot

/-- The slot as it stands in a line. -/
def text (s : Slot) : Text := s.plain ++ openMark ++ s.body ++ closeMark

/-- The value of the expression, without the blanks around it. -/
def value (scope : Scope) (s : Slot) : Except Cause Value := lineValue scope (Text.trim s.body)

end Slot

/-- No closing mark follows an opening mark. -/
def NoInsertion (t : Text) : Prop :=
  ∀ before after, t = before ++ openMark ++ after → ¬ closeMark <:+: after

/-- The text consists of the slots and what follows them, cut at the first marks. -/
structure CutAtMarks (t : Text) (slots : List Slot) (tail : Text) : Prop where
  whole : t = slots.flatMap Slot.text ++ tail
  plain : ∀ s ∈ slots, ¬ openMark <:+: s.plain
  body : ∀ s ∈ slots, ¬ closeMark <:+: s.body
  tail : NoInsertion tail

/-- The slots with values in the place of their insertions. -/
def filled (slots : List Slot) (values : List Value) : Text :=
  (List.zipWith (fun s v => s.plain ++ v.display) slots values).flatten

/-! ## Cutting a text at its marks -/

theorem nodup_openMark : openMark.Nodup := by decide

theorem nodup_closeMark : closeMark.Nodup := by decide

theorem closeMark_ne_nil : closeMark ≠ [] := by decide

theorem openMark_ne_nil : openMark ≠ [] := by decide

section Cuts

variable {t rest tail tail' : Text} {s : Slot} {slots slots' : List Slot}

theorem CutAtMarks.cons_iff :
    CutAtMarks t (s :: slots) tail ↔
      ∃ rest, t = s.text ++ rest ∧ ¬ openMark <:+: s.plain ∧ ¬ closeMark <:+: s.body ∧
        CutAtMarks rest slots tail := by
  constructor
  · intro ⟨whole, plain, body, htail⟩
    rw [List.forall_mem_cons] at plain body
    refine ⟨slots.flatMap Slot.text ++ tail, ?_, plain.1, body.1, rfl, plain.2, body.2, htail⟩
    rw [whole, List.flatMap_cons, List.append_assoc]
  · rintro ⟨rest, rfl, hplain, hbody, whole, plain, body, htail⟩
    refine ⟨?_, List.forall_mem_cons.2 ⟨hplain, plain⟩, List.forall_mem_cons.2 ⟨hbody, body⟩, htail⟩
    rw [whole, List.flatMap_cons, List.append_assoc]

theorem Slot.text_append (s : Slot) (rest : Text) :
    s.text ++ rest = s.plain ++ openMark ++ (s.body ++ closeMark ++ rest) := by
  unfold Slot.text
  simp only [List.append_assoc]

/-- A text with a slot has an insertion. -/
theorem not_noInsertion_slot : ¬ NoInsertion (s.text ++ rest) := by
  intro h
  exact h s.plain _ (s.text_append rest) (List.infix_append s.body closeMark rest)

/-- A text is cut at its marks in one way only. -/
theorem CutAtMarks.unique (h : CutAtMarks t slots tail) (h' : CutAtMarks t slots' tail') :
    slots' = slots ∧ tail' = tail := by
  induction slots generalizing t slots' with
  | nil =>
    obtain rfl : t = tail := h.whole
    cases slots' with
    | nil => exact ⟨rfl, h'.whole.symm⟩
    | cons s' slots' =>
      obtain ⟨rest, rfl, -⟩ := CutAtMarks.cons_iff.1 h'
      exact absurd h.tail not_noInsertion_slot
  | cons s slots ih =>
    obtain ⟨rest, rfl, hplain, hbody, hrest⟩ := CutAtMarks.cons_iff.1 h
    cases slots' with
    | nil =>
      obtain rfl : s.text ++ rest = tail' := h'.whole
      exact absurd h'.tail not_noInsertion_slot
    | cons s' slots' =>
      obtain ⟨rest', htext, hplain', hbody', hrest'⟩ := CutAtMarks.cons_iff.1 h'
      rw [Slot.text_append, Slot.text_append] at htext
      obtain ⟨hp, hinner⟩ := Text.first_unique nodup_openMark hplain hplain' htext
      obtain ⟨hb, rfl⟩ := Text.first_unique nodup_closeMark hbody hbody' hinner
      obtain ⟨rfl, rfl⟩ := ih hrest hrest'
      obtain ⟨p, b⟩ := s
      obtain ⟨p', b'⟩ := s'
      obtain rfl : p = p' := hp
      obtain rfl : b = b' := hb
      exact ⟨rfl, rfl⟩

/-- What no closing mark follows the first opening mark of has no insertion. -/
theorem noInsertion_of_first {before after : Text} (hfirst : ¬ openMark <:+: before)
    (hclosed : ¬ closeMark <:+: after) : NoInsertion (before ++ openMark ++ after) := by
  intro other later h hpart
  obtain ⟨x, rfl⟩ := Text.prefix_of_first nodup_openMark hfirst h
  refine hclosed (hpart.trans (List.IsSuffix.isInfix ?_))
  rw [List.append_assoc, List.append_assoc, List.append_assoc] at h
  have hlength := congrArg List.length h
  have hsuffix : later <:+ openMark ++ after :=
    ⟨x ++ openMark, by rw [List.append_cancel_left h, List.append_assoc]⟩
  refine List.suffix_of_suffix_length_le hsuffix (List.suffix_append openMark after) ?_
  simp only [List.length_append] at hlength
  omega

/-- It is enough to look at the first opening mark. -/
theorem noInsertion_iff :
    NoInsertion t ↔
      ((Text.cut? openMark t).bind fun cut => Text.cut? closeMark cut.2) = none := by
  cases hopen : Text.cut? openMark t with
  | none =>
    refine iff_of_true (fun before after h => absurd ?_ (Text.cut?_eq_none_iff.1 hopen)) rfl
    exact ⟨before, after, h.symm⟩
  | some cut =>
    obtain ⟨before, after⟩ := cut
    obtain ⟨rfl, hfirst⟩ := (Text.cut?_eq_some_iff nodup_openMark openMark_ne_nil).1 hopen
    show _ ↔ Text.cut? closeMark after = none
    rw [Text.cut?_eq_none_iff]
    exact ⟨fun h => h before after rfl, noInsertion_of_first hfirst⟩

instance (t : Text) : Decidable (NoInsertion t) := decidable_of_iff _ noInsertion_iff.symm

/-- Every text can be cut at its marks. -/
theorem exists_cutAtMarks (t : Text) : ∃ slots tail, CutAtMarks t slots tail := by
  induction hn : t.length using Nat.strong_induction_on generalizing t with | _ n ih
  cases hopen : Text.cut? openMark t with
  | none =>
    have hnone := Text.cut?_eq_none_iff.1 hopen
    refine ⟨[], t, rfl, nofun, nofun, fun before after h => absurd ?_ hnone⟩
    exact ⟨before, after, h.symm⟩
  | some cut =>
    obtain ⟨plain, inner⟩ := cut
    obtain ⟨rfl, hplain⟩ := (Text.cut?_eq_some_iff nodup_openMark openMark_ne_nil).1 hopen
    cases hclose : Text.cut? closeMark inner with
    | none =>
      exact ⟨[], _, rfl, nofun, nofun,
        noInsertion_of_first hplain (Text.cut?_eq_none_iff.1 hclose)⟩
    | some cut =>
      obtain ⟨body, rest⟩ := cut
      obtain ⟨rfl, hbody⟩ := (Text.cut?_eq_some_iff nodup_closeMark closeMark_ne_nil).1 hclose
      have hshorter : rest.length < n := by
        simp only [← hn, openMark, List.length_append, List.length_cons]
        omega
      obtain ⟨slots, tail, hcut⟩ := ih rest.length hshorter rest rfl
      refine ⟨⟨plain, body⟩ :: slots, tail, CutAtMarks.cons_iff.2 ⟨rest, ?_, hplain, hbody, hcut⟩⟩
      rw [Slot.text_append]

end Cuts

/-! ## The pieces of a slot -/

section Pieces

variable {t rest : Text} {s : Slot}

/-- Where an opening mark starts that a closing mark follows, there is an insertion. -/
theorem insertionAt?_marks {body : Text} (hbody : ¬ closeMark <:+: body) (rest : Text) :
    insertionAt? (openMark ++ (body ++ closeMark ++ rest)) = some body := by
  have hcut : Text.cut? closeMark (body ++ closeMark ++ rest) = some (body, rest) :=
    (Text.cut?_eq_some_iff nodup_closeMark closeMark_ne_nil).2 ⟨rfl, hbody⟩
  unfold insertionAt?
  rw [Text.stripStart?_append]
  show (Text.cut? closeMark (body ++ closeMark ++ rest)).bind _ = _
  rw [hcut]
  rfl

/-- An insertion starts with an opening mark, and a closing mark follows it. -/
theorem marks_of_insertionAt? {body : Text} (h : insertionAt? t = some body) :
    ∃ rest, t = openMark ++ rest ∧ closeMark <:+: rest := by
  obtain ⟨rest, hopen, h⟩ := Option.bind_eq_some_iff.1 h
  obtain ⟨⟨inner, after⟩, hclose, -⟩ := Option.bind_eq_some_iff.1 h
  refine ⟨rest, Text.eq_append_of_stripStart? hopen, ?_⟩
  rw [Text.eq_append_of_cut? hclose]
  exact List.infix_append inner closeMark after

/-- Characters at which no insertion starts stay. -/
theorem piecesFrom_plain {first : Text}
    (h : ∀ before c after, first = before ++ c :: after → insertionAt? (c :: after ++ rest) = none)
    (column : Nat) :
    piecesFrom 0 column (first ++ rest) =
      first.map .plain ++ piecesFrom 0 (column + first.length) rest := by
  induction first generalizing column with
  | nil => rfl
  | cons c first ih =>
    have hnone := h [] c first rfl
    have hlater : ∀ before d after, first = before ++ d :: after →
        insertionAt? (d :: after ++ rest) = none := fun before d after heq =>
      h (c :: before) d after (by rw [heq, List.cons_append])
    rw [List.cons_append] at hnone ⊢
    rw [piecesFrom, hnone]
    dsimp only
    rw [ih hlater, List.map_cons, List.cons_append, List.length_cons, Nat.add_assoc, Nat.add_comm 1]

/-- Characters of an insertion that was taken are passed over. -/
theorem piecesFrom_skip (first rest : Text) (column : Nat) :
    piecesFrom first.length column (first ++ rest) =
      piecesFrom 0 (column + first.length) rest := by
  induction first generalizing column with
  | nil => rfl
  | cons c first ih =>
    rw [List.length_cons, List.cons_append, piecesFrom, ih, Nat.add_assoc, Nat.add_comm 1]

/-- No insertion starts in the part of a slot that stays. -/
theorem insertionAt?_in_plain (hplain : ¬ openMark <:+: s.plain) {before after : Text} {c : Char}
    (h : s.plain = before ++ c :: after) (rest : Text) :
    insertionAt? (c :: after ++ (openMark ++ rest)) = none := by
  rw [Option.eq_none_iff_forall_ne_some]
  intro body hbody
  obtain ⟨inner, hinner, -⟩ := marks_of_insertionAt? hbody
  have hplace : s.plain ++ openMark ++ rest = before ++ openMark ++ inner := by
    rw [h, List.append_assoc before openMark inner, ← hinner]
    simp only [List.append_assoc]
  have hle := (Text.prefix_of_first nodup_openMark hplain hplace).length_le
  rw [h, List.length_append, List.length_cons] at hle
  omega

theorem insertionAt?_of_noInsertion (ht : NoInsertion t) {before after : Text} {c : Char}
    (h : t = before ++ c :: after) : insertionAt? (c :: after) = none := by
  rw [Option.eq_none_iff_forall_ne_some]
  intro body hbody
  obtain ⟨inner, hinner, hclosed⟩ := marks_of_insertionAt? hbody
  refine ht before inner ?_ hclosed
  rw [h, hinner, List.append_assoc]

/-- The first character of an insertion takes it as a whole. -/
theorem piecesFrom_insertion {body : Text} (hbody : ¬ closeMark <:+: body) (column : Nat)
    (rest : Text) :
    piecesFrom 0 column (openMark ++ (body ++ closeMark ++ rest)) =
      .insertion (column + openMark.length) body ::
        piecesFrom 0 (column + (openMark ++ body ++ closeMark).length) rest := by
  have hmarks : insertionAt? ('/' :: (['*', '$'] ++ (body ++ closeMark ++ rest))) = some body :=
    insertionAt?_marks hbody rest
  have hskip := piecesFrom_skip (['*', '$'] ++ body ++ closeMark) rest (column + 1)
  have hlength : (['*', '$'] ++ body ++ closeMark).length =
      openMark.length + body.length + closeMark.length - 1 := by
    simp only [List.length_append, openMark, closeMark, List.length_cons, List.length_nil]
    omega
  have hcolumn : column + 1 + (['*', '$'] ++ body ++ closeMark).length =
      column + (openMark ++ body ++ closeMark).length := Nat.add_right_comm ..
  rw [hcolumn, hlength] at hskip
  show piecesFrom 0 column ('/' :: (['*', '$'] ++ (body ++ closeMark ++ rest))) = _
  rw [piecesFrom, hmarks, ← hskip]
  simp only [List.append_assoc]

/-- The pieces of a slot are the characters that stay and one insertion. -/
theorem pieces_slot (hplain : ¬ openMark <:+: s.plain) (hbody : ¬ closeMark <:+: s.body)
    (column : Nat) (rest : Text) :
    pieces column (s.text ++ rest) =
      s.plain.map .plain ++
        .insertion (column + s.plain.length + openMark.length) s.body ::
          pieces (column + s.text.length) rest := by
  have hlength : column + s.plain.length + (openMark ++ s.body ++ closeMark).length =
      column + s.text.length := by
    unfold Slot.text
    simp only [List.length_append]
    omega
  unfold pieces
  rw [Slot.text_append, List.append_assoc, piecesFrom_plain fun before c after h =>
    insertionAt?_in_plain hplain h _, piecesFrom_insertion hbody, hlength]

theorem pieces_noInsertion (ht : NoInsertion t) (column : Nat) :
    pieces column t = t.map .plain := by
  have h := @piecesFrom_plain [] t (fun before c after heq => by
    rw [List.append_nil]
    exact insertionAt?_of_noInsertion ht heq) column
  rw [List.append_nil] at h
  rw [pieces, h, piecesFrom, List.append_nil]

end Pieces

/-! ## What a text becomes -/

section Rendering

variable {scope : Scope} {t rest tail : Text} {s : Slot} {slots : List Slot}

/-- Characters that stay are written before what the other pieces become. -/
theorem renderPieces_plain (scope : Scope) (first : Text) (ps : List Piece) :
    renderPieces scope (first.map .plain ++ ps) = (renderPieces scope ps).map (first ++ ·) := by
  induction first with
  | nil =>
    show renderPieces scope ps = _
    cases renderPieces scope ps <;> rfl
  | cons c first ih =>
    rw [List.map_cons, List.cons_append, renderPieces, ih]
    cases renderPieces scope ps <;> rfl

/-- Characters that stay are all that there is. -/
theorem renderPieces_map_plain (scope : Scope) (t : Text) :
    renderPieces scope (t.map .plain) = .ok t := by
  have h := renderPieces_plain scope t []
  rw [List.append_nil] at h
  rw [h, renderPieces]
  exact congrArg Except.ok (List.append_nil t)

/-- An insertion becomes the value of its expression, without the blanks around it. -/
theorem render_insertion (scope : Scope) (column : Nat) (body : Text) :
    (Piece.insertion column body).render scope = (atColumn (column + Text.leadingBlanks body)
      (lineValue scope (Text.trim body))).map Value.display := by
  unfold lineValue atColumn
  rw [map_mapError, map_bind]
  rfl

/-- The column at which the expression of a slot starts. -/
def Slot.column (column : Nat) (s : Slot) : Nat :=
  column + s.plain.length + openMark.length + Text.leadingBlanks s.body

/-- A slot becomes what stays and the value of its expression. -/
theorem insertValues_slot (hplain : ¬ openMark <:+: s.plain) (hbody : ¬ closeMark <:+: s.body)
    (scope : Scope) (column : Nat) (rest : Text) :
    insertValues scope column (s.text ++ rest) =
      atColumn (s.column column) (s.value scope) >>= fun v =>
        (insertValues scope (column + s.text.length) rest).map (s.plain ++ v.display ++ ·) := by
  have hrender : Piece.render scope
      (.insertion (column + s.plain.length + openMark.length) s.body) =
        (atColumn (s.column column) (s.value scope)).map Value.display := render_insertion ..
  unfold insertValues
  rw [pieces_slot hplain hbody, renderPieces_plain, renderPieces, hrender]
  cases atColumn (s.column column) (s.value scope) with
  | error fault => rfl
  | ok v =>
    cases renderPieces scope (pieces (column + s.text.length) rest) with
    | error fault => rfl
    | ok others => exact congrArg Except.ok (List.append_assoc ..).symm

/-- A text without insertions stays as it is. -/
theorem insertValues_noInsertion (ht : NoInsertion t) (scope : Scope) (column : Nat) :
    insertValues scope column t = .ok t := by
  rw [insertValues, pieces_noInsertion ht, renderPieces_map_plain]

/-- Where all expressions have values, these take the places of the insertions. -/
theorem insertValues_filled (hcut : CutAtMarks t slots tail) {values : List Value}
    (hvalues : List.Forall₂ (fun s v => s.value scope = .ok v) slots values) (column : Nat) :
    insertValues scope column t = .ok (filled slots values ++ tail) := by
  induction hvalues generalizing t column with
  | nil =>
    obtain rfl : t = tail := hcut.whole
    exact insertValues_noInsertion hcut.tail scope column
  | cons hvalue _ ih =>
    obtain ⟨rest, rfl, hplain, hbody, hrest⟩ := CutAtMarks.cons_iff.1 hcut
    rw [insertValues_slot hplain hbody, hvalue, ih hrest]
    refine congrArg Except.ok ?_
    unfold filled
    rw [List.zipWith_cons_cons, List.flatten_cons]
    simp only [List.append_assoc]

/-- The first expression that has no value is the failure of the text. -/
theorem insertValues_fails {before after : List Slot} {cause : Cause}
    (hcut : CutAtMarks t (before ++ s :: after) tail)
    (hbefore : ∀ q ∈ before, ∃ v, q.value scope = .ok v) (hcause : s.value scope = .error cause)
    (column : Nat) :
    insertValues scope column t =
      .error ⟨cause, s.column (column + (before.flatMap Slot.text).length)⟩ := by
  induction before generalizing t column with
  | nil =>
    obtain ⟨rest, rfl, hplain, hbody, -⟩ := CutAtMarks.cons_iff.1 hcut
    rw [insertValues_slot hplain hbody, hcause]
    rfl
  | cons q before ih =>
    obtain ⟨rest, rfl, hplain, hbody, hrest⟩ := CutAtMarks.cons_iff.1 hcut
    rw [List.forall_mem_cons] at hbefore
    obtain ⟨v, hv⟩ := hbefore.1
    rw [insertValues_slot hplain hbody, hv, ih hrest hbefore.2, List.flatMap_cons,
      List.length_append, ← Nat.add_assoc]
    rfl

/-- All expressions have values, or one of them is the first that has none. -/
theorem values_or_failure (scope : Scope) (slots : List Slot) :
    (∃ values, List.Forall₂ (fun s v => s.value scope = .ok v) slots values) ∨
      ∃ before s after cause, slots = before ++ s :: after ∧
        (∀ q ∈ before, ∃ v, q.value scope = .ok v) ∧ s.value scope = .error cause := by
  induction slots with
  | nil => exact .inl ⟨[], .nil⟩
  | cons s slots ih =>
    cases hvalue : s.value scope with
    | error cause => exact .inr ⟨[], s, slots, cause, rfl, nofun, hvalue⟩
    | ok v =>
      obtain ⟨values, hvalues⟩ | ⟨before, q, after, cause, rfl, hbefore, hcause⟩ := ih
      · exact .inl ⟨v :: values, .cons hvalue hvalues⟩
      · exact .inr ⟨s :: before, q, after, cause, rfl,
          List.forall_mem_cons.2 ⟨⟨v, hvalue⟩, hbefore⟩, hcause⟩

end Rendering

/-- **Insertions are replaced once, from left to right.** A text is cut at its marks in exactly one
way. What it becomes is the texts that stay, with the values of the expressions between them and what
follows the last of them; or, where some expression has no value, the failure of the first of these,
at the column where it starts. A text without an insertion stays as it is. -/
theorem insertValues_decomposes (scope : Scope) (column : Nat) (t : Text) :
    ∃ slots tail, CutAtMarks t slots tail ∧
      (∀ slots' tail', CutAtMarks t slots' tail' → slots' = slots ∧ tail' = tail) ∧
      ((∃ values, List.Forall₂ (fun s v => s.value scope = .ok v) slots values ∧
          insertValues scope column t = .ok (filled slots values ++ tail)) ∨
        ∃ before s after cause, slots = before ++ s :: after ∧
          (∀ q ∈ before, ∃ v, q.value scope = .ok v) ∧ s.value scope = .error cause ∧
          insertValues scope column t =
            .error ⟨cause, s.column (column + (before.flatMap Slot.text).length)⟩) ∧
      (NoInsertion t → slots = [] ∧ insertValues scope column t = .ok t) := by
  obtain ⟨slots, tail, hcut⟩ := exists_cutAtMarks t
  refine ⟨slots, tail, hcut, fun _ _ hcut' => hcut.unique hcut', ?_, ?_⟩
  · obtain ⟨values, hvalues⟩ | ⟨before, s, after, cause, rfl, hbefore, hcause⟩ :=
      values_or_failure scope slots
    · exact .inl ⟨values, hvalues, insertValues_filled hcut hvalues column⟩
    · exact .inr ⟨before, s, after, cause, rfl, hbefore, hcause,
        insertValues_fails hcut hbefore hcause column⟩
  · intro ht
    have halone : CutAtMarks t [] t := ⟨rfl, nofun, nofun, ht⟩
    exact ⟨(halone.unique hcut).1, insertValues_noInsertion ht scope column⟩

/-- Closing marks that nothing opens stay, and so do an opening mark that nothing closes and the
marks of an inserted value. -/
example : (insertValues ⟨⟨"main".toList⟩, 1, none, .empty⟩ 1
    "$*/ /*$ 1 + 1 $*//*$\"/*$1$\" + \"*/\"$*/ /*$*/".toList).toOption =
      some "$*/ 2/*$1$*/ /*$*/".toList := by decide +kernel

end SourcePreprocessor
