import SourcePreprocessor.Proofs.Expr.Grammar

/-!
# Where the reading of an expression fails

A text that is no expression fails at a column, which the lexer or the reader gives. The lexer points
at the start of what is no lexeme. The reader has nothing to point at but the lexemes it was given
and the end of the text. So the column is that of a character of the text, or the one just past it
(`parse_column`, `parseList_column`).
-/

namespace SourcePreprocessor

/-! ## The lexer -/

/-- What a scan finds, and what stops it, stands in the text that it goes through. -/
theorem scan_column (t : Text) : ∀ skip column : Nat,
    (∀ e, scan skip column t = .error e → column ≤ e.column ∧ e.column < column + t.length) ∧
    ∀ ls, scan skip column t = .ok ls →
      ∀ l ∈ ls, column ≤ l.column ∧ l.column < column + t.length := by
  induction t with
  | nil =>
    intro skip column
    rw [scan]
    refine ⟨nofun, fun ls h => ?_⟩
    obtain rfl := Except.ok.inj h
    nofun
  | cons c t ih =>
    intro skip column
    rw [List.length_cons]
    -- what stands in the rest of the text stands in the text
    have later : ∀ skip : Nat,
        (∀ e, scan skip (column + 1) t = .error e →
          column ≤ e.column ∧ e.column < column + (t.length + 1)) ∧
        ∀ ls, scan skip (column + 1) t = .ok ls →
          ∀ l ∈ ls, column ≤ l.column ∧ l.column < column + (t.length + 1) := by
      intro skip
      obtain ⟨herror, hok⟩ := ih skip (column + 1)
      constructor
      · intro e h
        have hcolumn := herror e h
        omega
      · intro ls h l hl
        have hcolumn := hok ls h l hl
        omega
    cases skip with
    | succ skip => exact later skip
    | zero =>
      rw [scan]
      split
      · exact later 0
      · dsimp only
        split
        · refine ⟨fun e h => ?_, nofun⟩
          obtain rfl := Except.error.inj h
          dsimp only
          omega
        · obtain ⟨herror, hok⟩ := later ((lexemeAt c t).length - 1)
          constructor
          · intro e h
            rw [map_eq_error_iff] at h
            exact herror e h
          · intro ls h
            obtain ⟨found, hfound, rfl⟩ := map_eq_ok_iff.1 h
            rw [List.forall_mem_cons]
            exact ⟨by dsimp only; omega, hok found hfound⟩

/-! ## The reader -/

namespace Parser

/-- Up to this bound of its calls, the reader points only at columns that its lexemes have, or at the
end of the text: at those that satisfy the predicate. -/
structure PointsAt (P : Nat → Prop) (endColumn bound : Nat) : Prop where
  expression : ∀ {lexemes failure}, (∀ l ∈ lexemes, P l.column) →
    expression endColumn bound lexemes = .error failure → P failure.error.column
  tier : ∀ {ts lexemes failure}, (∀ l ∈ lexemes, P l.column) →
    tier endColumn bound ts lexemes = .error failure → P failure.error.column
  chain : ∀ {priority tighter left lexemes failure}, (∀ l ∈ lexemes, P l.column) →
    chain endColumn bound priority tighter left lexemes = .error failure → P failure.error.column
  unary : ∀ {lexemes failure}, (∀ l ∈ lexemes, P l.column) →
    unary endColumn bound lexemes = .error failure → P failure.error.column
  primary : ∀ {lexemes failure}, (∀ l ∈ lexemes, P l.column) →
    primary endColumn bound lexemes = .error failure → P failure.error.column
  arguments : ∀ {callColumn first lexemes failure}, P callColumn → (∀ l ∈ lexemes, P l.column) →
    arguments endColumn bound callColumn first lexemes = .error failure → P failure.error.column

section Points

variable {P : Nat → Prop} {endColumn : Nat} (hend : P endColumn)

include hend

theorem unexpected_column {lexemes : List Lexeme} (h : ∀ l ∈ lexemes, P l.column) :
    P (unexpected endColumn lexemes).error.column := by
  cases lexemes with
  | nil => exact hend
  | cons l lexemes => exact (List.forall_mem_cons.1 h).1

/-- The delimiter of an expression that was read stands at such a column, and so does what comes
after it. -/
theorem expression_column {bound : Nat} {lexemes rest : List Lexeme} {item? : Option Item}
    {d : Delimiter} (h : ∀ l ∈ lexemes, P l.column)
    (hread : Parser.expression endColumn bound lexemes = .ok ((item?, d), rest)) :
    P d.column ∧ ∀ l ∈ rest, P l.column := by
  obtain ⟨ls, left, rfl, hd, -⟩ := (soundAt endColumn bound).expression hread
  have hleft := (List.forall_mem_append.1 h).2
  rcases delimiter?_eq_some hd with ⟨rfl, rfl, rfl⟩ | ⟨-, rfl⟩ | ⟨-, rfl⟩
  · exact ⟨hend, nofun⟩
  · exact List.forall_mem_cons.1 hleft
  · exact List.forall_mem_cons.1 hleft

variable {bound : Nat} (ih : PointsAt P endColumn bound)

include ih

theorem expression_points {lexemes : List Lexeme} {failure : ParseFailure}
    (hcolumns : ∀ l ∈ lexemes, P l.column)
    (h : Parser.expression endColumn (bound + 1) lexemes = .error failure) :
    P failure.error.column := by
  rw [Parser.expression] at h
  split at h
  · cases h
  · rcases bind_eq_error_iff.1 h with htier | ⟨⟨item, rest⟩, htier, hrest⟩
    · exact ih.tier hcolumns htier
    · obtain ⟨ls, rfl, -⟩ := (soundAt endColumn bound).tier htier
      dsimp only at hrest
      split at hrest
      · cases hrest
      · obtain rfl := Except.error.inj hrest
        exact unexpected_column hend (List.forall_mem_append.1 hcolumns).2

omit hend in
theorem tier_points {ts : List Priority} {lexemes : List Lexeme} {failure : ParseFailure}
    (hcolumns : ∀ l ∈ lexemes, P l.column)
    (h : Parser.tier endColumn (bound + 1) ts lexemes = .error failure) :
    P failure.error.column := by
  cases ts with
  | nil => exact ih.unary hcolumns h
  | cons priority tighter =>
    rw [Parser.tier] at h
    rcases bind_eq_error_iff.1 h with htier | ⟨⟨left, rest⟩, htier, hchain⟩
    · exact ih.tier hcolumns htier
    · obtain ⟨ls, rfl, -⟩ := (soundAt endColumn bound).tier htier
      exact ih.chain (List.forall_mem_append.1 hcolumns).2 hchain

omit hend in
theorem chain_points {priority : Priority} {tighter : List Priority} {left : Item}
    {lexemes : List Lexeme} {failure : ParseFailure} (hcolumns : ∀ l ∈ lexemes, P l.column)
    (h : Parser.chain endColumn (bound + 1) priority tighter left lexemes = .error failure) :
    P failure.error.column := by
  rw [Parser.chain] at h
  split at h
  · cases h
  · next op column after hop =>
    obtain ⟨-, rfl⟩ := operator?_eq_some hop
    have hafter := (List.forall_mem_cons.1 hcolumns).2
    rcases bind_eq_error_iff.1 h with htier | ⟨⟨right, rest⟩, htier, hchain⟩
    · exact ih.tier hafter htier
    · obtain ⟨ls, rfl, -⟩ := (soundAt endColumn bound).tier htier
      exact ih.chain (List.forall_mem_append.1 hafter).2 hchain

omit hend in
theorem unary_points {lexemes : List Lexeme} {failure : ParseFailure}
    (hcolumns : ∀ l ∈ lexemes, P l.column)
    (h : Parser.unary endColumn (bound + 1) lexemes = .error failure) :
    P failure.error.column := by
  cases lexemes with
  | nil => exact ih.primary hcolumns h
  | cons head after =>
    obtain ⟨token, column⟩ := head
    cases token with
    | symbol s =>
      rw [Parser.unary] at h
      split at h
      · rcases bind_eq_error_iff.1 h with hoperand | ⟨⟨operand, rest⟩, -, hitem⟩
        · exact ih.unary (List.forall_mem_cons.1 hcolumns).2 hoperand
        · cases hitem
      · exact ih.primary hcolumns h
    | _ => exact ih.primary hcolumns h

theorem primary_points {lexemes : List Lexeme} {failure : ParseFailure}
    (hcolumns : ∀ l ∈ lexemes, P l.column)
    (h : Parser.primary endColumn (bound + 1) lexemes = .error failure) :
    P failure.error.column := by
  cases lexemes with
  | nil =>
    obtain rfl := Except.error.inj h
    exact hend
  | cons head after =>
    obtain ⟨token, column⟩ := head
    obtain ⟨hcolumn, hafter⟩ := List.forall_mem_cons.1 hcolumns
    cases token with
    | int n => cases h
    | float x => cases h
    | str t => cases h
    | bool b => cases h
    | name name =>
      by_cases hopen : ∃ columnOpen inner, after = ⟨.symbol .openParen, columnOpen⟩ :: inner
      · obtain ⟨columnOpen, inner, rfl⟩ := hopen
        rw [Parser.primary] at h
        rcases bind_eq_error_iff.1 h with harguments | ⟨⟨items, rest⟩, -, hitem⟩
        · exact ih.arguments hcolumn (List.forall_mem_cons.1 hafter).2 harguments
        · cases hitem
      · rw [primary_reference fun columnOpen inner e => hopen ⟨columnOpen, inner, e⟩] at h
        cases h
    | symbol s =>
      cases s with
      | openParen =>
        rw [Parser.primary] at h
        rcases bind_eq_error_iff.1 h with hexpression | ⟨⟨⟨item?, d⟩, rest⟩, hexpression, hitem⟩
        · exact ih.expression hafter hexpression
        · obtain ⟨hd, -⟩ := expression_column hend hafter hexpression
          dsimp only at hitem
          split at hitem
          · cases hitem
          · exact Except.error.inj hitem ▸ hd
          · exact Except.error.inj hitem ▸ hd
          · exact Except.error.inj hitem ▸ hcolumn
      | _ => exact Except.error.inj h ▸ hcolumn

theorem arguments_points {callColumn : Nat} {first : Bool} {lexemes : List Lexeme}
    {failure : ParseFailure} (hcall : P callColumn) (hcolumns : ∀ l ∈ lexemes, P l.column)
    (h : Parser.arguments endColumn (bound + 1) callColumn first lexemes = .error failure) :
    P failure.error.column := by
  rw [Parser.arguments] at h
  rcases bind_eq_error_iff.1 h with hexpression | ⟨⟨⟨item?, d⟩, rest⟩, hexpression, hitems⟩
  · exact ih.expression hcolumns hexpression
  · obtain ⟨hd, hrest⟩ := expression_column hend hcolumns hexpression
    dsimp only at hitems
    split at hitems
    · exact Except.error.inj hitems ▸ hcall
    · rcases bind_eq_error_iff.1 hitems with hothers | ⟨⟨items, last⟩, -, hcons⟩
      · exact ih.arguments hcall hrest hothers
      · cases hcons
    · cases hitems
    · split at hitems
      · cases hitems
      · exact Except.error.inj hitems ▸ hd
    · exact Except.error.inj hitems ▸ hd

end Points

theorem pointsAt {P : Nat → Prop} {endColumn : Nat} (hend : P endColumn) (bound : Nat) :
    PointsAt P endColumn bound := by
  induction bound with
  | zero =>
    have hzero : ∀ {lexemes : List Lexeme} {failure : ParseFailure},
        (∀ l ∈ lexemes, P l.column) → unexpected endColumn lexemes = failure →
          P failure.error.column := fun hcolumns h => h ▸ unexpected_column hend hcolumns
    exact ⟨fun hc h => hzero hc (Except.error.inj h), fun hc h => hzero hc (Except.error.inj h),
      fun hc h => hzero hc (Except.error.inj h), fun hc h => hzero hc (Except.error.inj h),
      fun hc h => hzero hc (Except.error.inj h), fun _ hc h => hzero hc (Except.error.inj h)⟩
  | succ bound ih =>
    exact ⟨expression_points hend ih, tier_points ih, chain_points ih, unary_points ih,
      primary_points hend ih, arguments_points hend ih⟩

end Parser

section Columns

variable {P : Nat → Prop} {endColumn : Nat} (hend : P endColumn)

include hend

theorem parseLexemes_column {lexemes : List Lexeme} {e : ParseError}
    (hcolumns : ∀ l ∈ lexemes, P l.column) (h : parseLexemes endColumn lexemes = .error e) :
    P e.column := by
  unfold parseLexemes at h
  split at h
  · next failure hfailure =>
    obtain rfl := Except.error.inj h
    exact (Parser.pointsAt hend _).expression hcolumns hfailure
  · next item? d rest hread =>
    obtain ⟨hd, -⟩ := Parser.expression_column hend hcolumns hread
    split at h
    · cases h
    · exact Except.error.inj h ▸ hd
    · exact Except.error.inj h ▸ hd
    · exact Except.error.inj h ▸ hd

theorem parseItems_column (bound : Nat) : ∀ {first : Bool} {lexemes : List Lexeme} {e : ParseError},
    (∀ l ∈ lexemes, P l.column) → parseItems endColumn bound first lexemes = .error e →
      P e.column := by
  induction bound with
  | zero =>
    intro first lexemes e hcolumns h
    obtain rfl := Except.error.inj h
    exact Parser.unexpected_column hend hcolumns
  | succ bound ih =>
    intro first lexemes e hcolumns h
    rw [parseItems] at h
    split at h
    · next failure hfailure =>
      obtain rfl := Except.error.inj h
      exact (Parser.pointsAt hend _).expression hcolumns hfailure
    · next item? d rest hread =>
      obtain ⟨hd, hrest⟩ := Parser.expression_column hend hcolumns hread
      split at h
      · exact ih hrest (map_eq_error_iff.1 h)
      · cases h
      · split at h
        · exact Except.error.inj h ▸ hd
        · exact Except.error.inj h ▸ hd
      · exact Except.error.inj h ▸ hd
      · exact Except.error.inj h ▸ hd

end Columns

/-! ## Texts -/

/-- The column is that of a character of the text, or the one just past it. -/
def IsColumnOf (source : Text) (column : Nat) : Prop := 1 ≤ column ∧ column ≤ columnPast source

theorem isColumnOf_columnPast (source : Text) : IsColumnOf source (columnPast source) := by
  unfold IsColumnOf columnPast
  omega

/-- The lexemes of a text stand in it, and where they fail does too. -/
theorem lexemesOf_column (source : Text) :
    (∀ e, lexemesOf source = .error e → IsColumnOf source e.column) ∧
    ∀ ls, lexemesOf source = .ok ls → ∀ l ∈ ls, IsColumnOf source l.column := by
  obtain ⟨herror, hok⟩ := scan_column source 0 1
  unfold IsColumnOf columnPast
  constructor
  · intro e h
    obtain ⟨lex, hlex, rfl⟩ := mapError_eq_error_iff.1 h
    have hcolumn := herror lex hlex
    dsimp only [ParseError.column]
    omega
  · intro ls h l hl
    have hcolumn := hok ls (mapError_eq_ok_iff.1 h) l hl
    omega

theorem parse_column {source : Text} {e : ParseError} (h : parse source = .error e) :
    IsColumnOf source e.column := by
  rcases bind_eq_error_iff.1 h with hlex | ⟨ls, hlex, hread⟩
  · exact (lexemesOf_column source).1 e hlex
  · rcases bind_eq_error_iff.1 hread with hread | ⟨root, -, hroot⟩
    · exact parseLexemes_column (isColumnOf_columnPast source)
        ((lexemesOf_column source).2 ls hlex) hread
    · cases hroot

theorem parseList_column {source : Text} {e : ParseError} (h : parseList source = .error e) :
    IsColumnOf source e.column := by
  rcases bind_eq_error_iff.1 h with hlex | ⟨ls, hlex, hread⟩
  · exact (lexemesOf_column source).1 e hlex
  · rcases bind_eq_error_iff.1 hread with hread | ⟨items, -, hitems⟩
    · exact parseItems_column (isColumnOf_columnPast source) _
        ((lexemesOf_column source).2 ls hlex) hread
    · cases hitems

end SourcePreprocessor
