import SourcePreprocessor.Proofs.Expr.ErrorColumn
import SourcePreprocessor.Proofs.Pass.Failure
import SourcePreprocessor.Proofs.Text.Parts

/-!
# A failed expression is pointed at where it stands

An expression on a line is cut out of it: the marker, the keyword and the blanks around an argument
go, or what stands before an equals sign, or the marks of an insertion. When it cannot be read, the
column inside the expression becomes a column of the line again. Each directive counts what it has
cut off in its own way.

`Reads` lists the places of a line where an expression is read, with the text before it and without a
word on columns. Both passes point at the place that goes with the expression that failed:

> `scanLine_located`, `lineEffect_located`: the column of the fault is the one after that text;
> `parse_failures_point`: so the diagnostic points at the very character that could not be read.
-/

namespace SourcePreprocessor

namespace Text

/-- A text is its leading blanks, the trimmed text, and what follows. -/
theorem exists_eq_trim (t : Text) : ∃ after, t = t.takeWhile isBlank ++ trim t ++ after := by
  obtain ⟨after, hafter⟩ := trimEnd_isPrefix (trimStart t)
  refine ⟨after, ?_⟩
  rw [List.append_assoc, trim, hafter, takeWhile_append_trimStart]

/-- The blanks that go in front leave everything from a character on that is not blank. -/
theorem length_trimStart_append_cons {c : Char} (hc : isBlank c = false) (before after : Text) :
    after.length < (trimStart (before ++ c :: after)).length := by
  unfold trimStart
  rw [List.dropWhile_append]
  split
  · rw [List.dropWhile_cons_of_neg (by simp [hc]), List.length_cons]
    omega
  · rw [List.length_append, List.length_cons]
    omega

theorem length_eq_trimStart (t : Text) :
    t.length = (t.takeWhile isBlank).length + (trimStart t).length := by
  rw [← List.length_append, takeWhile_append_trimStart]

end Text

/-! ## Places of expressions -/

/-- A line reads the expression `source`, which stands after the text `before`. -/
inductive Reads (marker content : Text) : (before source : Text) → Prop
  /-- The argument of a directive that takes one expression or several. -/
  | argument {d : Directive} {argument lead : Text}
    (kind : lineKind marker content = .directive d argument)
    (form : d.argumentForm = .expression ∨ d.argumentForm = .expressions)
    (split : content = lead ++ argument) :
    Reads marker content (lead ++ argument.takeWhile Text.isBlank) (Text.trim argument)
  /-- The right side of an assignment. -/
  | assignment {d : Directive} {lead name right : Text}
    (kind : lineKind marker content = .directive d (name ++ '=' :: right))
    (form : d = .localVariable ∨ d = .global) (first : '=' ∉ name)
    (split : content = lead ++ (name ++ '=' :: right)) :
    Reads marker content (lead ++ (name ++ '=' :: right.takeWhile Text.isBlank)) (Text.trim right)
  /-- What follows the name in a definition. -/
  | definition {argument lead name rest : Text} {c : Char}
    (kind : lineKind marker content = .directive .define argument)
    (split : content = lead ++ argument) (inside : Text.trim argument = name ++ c :: rest)
    (blank : Text.isBlank c = true) (first : ∀ x ∈ name, Text.isBlank x = false) :
    Reads marker content (lead ++ (argument.takeWhile Text.isBlank ++
      (name ++ c :: rest.takeWhile Text.isBlank))) (Text.trimStart rest)
  /-- An insertion of a line of text. -/
  | insertion {lead rest body : Text} (kind : lineKind marker content = .plain)
    (split : content = lead ++ rest) (found : insertionAt? rest = some body) :
    Reads marker content (lead ++ (openMark ++ body.takeWhile Text.isBlank)) (Text.trim body)
  /-- An insertion of a message. -/
  | message {d : Directive} {argument lead start rest body : Text}
    (kind : lineKind marker content = .directive d argument)
    (form : d = .echo ∨ d = .warning ∨ d = .error) (split : content = lead ++ argument)
    (inside : Text.trim argument = start ++ rest) (found : insertionAt? rest = some body) :
    Reads marker content (lead ++ (argument.takeWhile Text.isBlank ++
      (start ++ (openMark ++ body.takeWhile Text.isBlank)))) (Text.trim body)

theorem eq_append_of_insertionAt? {t body : Text} (h : insertionAt? t = some body) :
    ∃ after, t = openMark ++ body ++ after := by
  obtain ⟨rest, hrest, h⟩ := Option.bind_eq_some_iff.1 h
  obtain ⟨⟨inner, after⟩, hcut, h⟩ := Option.bind_eq_some_iff.1 h
  obtain rfl := Option.some.inj h
  refine ⟨closeMark ++ after, ?_⟩
  rw [Text.eq_append_of_stripStart? hrest, Text.eq_append_of_cut? hcut]
  simp only [List.append_assoc]

/-- The expression stands in the line, after the text before it. -/
theorem Reads.split {marker content before source : Text} (h : Reads marker content before source) :
    ∃ after, content = before ++ source ++ after := by
  cases h with
  | @argument d argument lead kind form split =>
    obtain ⟨after, hafter⟩ := Text.exists_eq_trim argument
    refine ⟨after, split.trans ?_⟩
    rw [List.append_assoc lead, List.append_assoc lead, ← hafter]
  | @assignment d lead name right kind form first split =>
    obtain ⟨after, hafter⟩ := Text.exists_eq_trim right
    refine ⟨after, split.trans ?_⟩
    conv_lhs => rw [hafter]
    simp only [List.append_assoc, List.cons_append]
  | @definition argument lead name rest c kind split inside blank first =>
    obtain ⟨after, hafter⟩ := Text.exists_eq_trim argument
    refine ⟨after, split.trans ?_⟩
    conv_lhs => rw [hafter, inside, ← Text.takeWhile_append_trimStart rest]
    simp only [List.append_assoc, List.cons_append]
  | @insertion lead rest body kind split found =>
    obtain ⟨closing, hrest⟩ := eq_append_of_insertionAt? found
    obtain ⟨after, hafter⟩ := Text.exists_eq_trim body
    refine ⟨after ++ closing, split.trans ?_⟩
    conv_lhs => rw [hrest, hafter]
    simp only [List.append_assoc]
  | @message d argument lead start rest body kind form split inside found =>
    obtain ⟨closing, hrest⟩ := eq_append_of_insertionAt? found
    obtain ⟨outer, houter⟩ := Text.exists_eq_trim argument
    obtain ⟨after, hafter⟩ := Text.exists_eq_trim body
    refine ⟨after ++ (closing ++ outer), split.trans ?_⟩
    conv_lhs => rw [houter, inside, hrest, hafter]
    simp only [List.append_assoc]

/-- The text cannot be read as an expression, or as a list of them. -/
def Unreadable (source : Text) (e : ParseError) : Prop :=
  parse source = .error e ∨ parseList source = .error e

theorem Unreadable.isColumnOf {source : Text} {e : ParseError} (h : Unreadable source e) :
    IsColumnOf source e.column := h.elim parse_column parseList_column

/-- The column is the one of an expression of the line that cannot be read. -/
def Located (marker content : Text) (e : ParseError) (column : Nat) : Prop :=
  ∃ before source, Reads marker content before source ∧ Unreadable source e ∧
    column = before.length + 1

/-! ## What fails to be read -/

section Causes

variable {scope : Scope} {d : Directive} {argument source : Text} {p : ParseError}

theorem structural_ne_parse {α : Type} (x : Except StructureError α) :
    x.mapError Cause.structural ≠ .error (.parse p) := by
  cases x with
  | error e => nofun
  | ok a => nofun

/-- An expression that was read has a value, or a failure of another kind. -/
theorem eval_ne_parse (e : Expression) (context : Context) :
    (e.eval context).mapError Cause.expression ≠ .error (.parse p) := by
  unfold Expression.eval
  cases e.root.eval context with
  | error e => nofun
  | ok v => nofun

theorem condition_ne_parse (e : Expression) (context : Context) :
    (e.condition context).mapError Cause.expression ≠ .error (.parse p) := by
  unfold Expression.condition Expression.eval
  cases e.root.eval context with
  | error e => nofun
  | ok v => cases v <;> nofun

theorem toText_ne_parse (v : Value) : v.toText.mapError Cause.expression ≠ .error (.parse p) := by
  cases v <;> nofun

theorem unreadable_of_parse (h : (parse source).mapError Cause.parse = .error (.parse p)) :
    Unreadable source p := by
  obtain ⟨e, he, hcause⟩ := mapError_eq_error_iff.1 h
  obtain rfl := ExpressionError.parse.inj (Cause.expression.inj hcause)
  exact .inl he

theorem lineValue_unreadable (h : lineValue scope source = .error (.parse p)) :
    Unreadable source p := by
  rcases bind_eq_error_iff.1 h with hparse | ⟨e, -, heval⟩
  · exact unreadable_of_parse hparse
  · exact absurd heval (eval_ne_parse e _)

theorem expressionArgument_unreadable (h : d.expressionArgument argument = .error (.parse p)) :
    Unreadable (Text.trim argument) p := by
  rcases bind_eq_error_iff.1 h with hneeded | ⟨source, hneeded, hparse⟩
  · exact absurd hneeded (structural_ne_parse _)
  · obtain rfl := eq_trim_of_neededArgument (mapError_eq_ok_iff.1 hneeded)
    exact unreadable_of_parse hparse

theorem expressionsArgument_unreadable (h : d.expressionsArgument argument = .error (.parse p)) :
    Unreadable (Text.trim argument) p := by
  rcases bind_eq_error_iff.1 h with hneeded | ⟨source, hneeded, hparse⟩
  · exact absurd hneeded (structural_ne_parse _)
  · obtain rfl := eq_trim_of_neededArgument (mapError_eq_ok_iff.1 hneeded)
    obtain ⟨e, he, hcause⟩ := mapError_eq_error_iff.1 hparse
    obtain rfl := ExpressionError.parse.inj (Cause.expression.inj hcause)
    exact .inr he

/-- A condition that cannot be read is the expression of its directive. -/
theorem conditionHolds_unreadable (h : conditionHolds scope d argument = .error (.parse p)) :
    d ≠ .ifDefined ∧ d ≠ .ifUndefined ∧ Unreadable (Text.trim argument) p := by
  unfold conditionHolds at h
  split at h
  · rcases bind_eq_error_iff.1 h with hname | ⟨name, -, hok⟩
    · exact absurd hname (structural_ne_parse _)
    · cases hok
  · rcases bind_eq_error_iff.1 h with hname | ⟨name, -, hok⟩
    · exact absurd hname (structural_ne_parse _)
    · cases hok
  · next hdefined hundefined =>
    refine ⟨hdefined, hundefined, ?_⟩
    rcases bind_eq_error_iff.1 h with hargument | ⟨e, -, hcondition⟩
    · exact expressionArgument_unreadable hargument
    · exact absurd hcondition (condition_ne_parse e _)

theorem conditionIf_unreadable {wanted : Bool}
    (h : conditionIf wanted scope d argument = .error (.parse p)) :
    d ≠ .ifDefined ∧ d ≠ .ifUndefined ∧ Unreadable (Text.trim argument) p := by
  unfold conditionIf at h
  split at h
  · exact conditionHolds_unreadable (map_eq_error_iff.1 h)
  · cases h

theorem conditionalBlocks_unreadable {blocks : BlockStack} (hpass : d.pass ≠ .global)
    (hconditional : d.isConditional = true)
    (h : conditionalBlocks scope blocks d argument = .error (.parse p)) :
    d.argumentForm = .expression ∧ Unreadable (Text.trim argument) p := by
  unfold conditionalBlocks at h
  split at h
  · rcases bind_eq_error_iff.1 h with hneeds | ⟨wanted, -, h⟩
    · exact absurd hneeds (structural_ne_parse _)
    · rcases bind_eq_error_iff.1 h with hcondition | ⟨condition, -, hblocks⟩
      · exact ⟨rfl, (conditionIf_unreadable hcondition).2.2⟩
      · exact absurd hblocks (structural_ne_parse _)
  · exact absurd h (structural_ne_parse _)
  · exact absurd h (structural_ne_parse _)
  · rcases bind_eq_error_iff.1 h with hcondition | ⟨condition, -, hok⟩
    · obtain ⟨hdefined, hundefined, hunreadable⟩ := conditionIf_unreadable hcondition
      refine ⟨?_, hunreadable⟩
      cases d with
      | ifTrue => rfl
      | ifDefined => exact absurd rfl hdefined
      | ifUndefined => exact absurd rfl hundefined
      | _ => simp_all [Directive.pass, Directive.isConditional]
    · cases hok

theorem includeEffect_unreadable {files : FileTree} {chain : List Position}
    (h : includeEffect files chain scope d argument = .error (.parse p)) :
    Unreadable (Text.trim argument) p := by
  unfold includeEffect at h
  rcases bind_eq_error_iff.1 h with hargument | ⟨e, -, h⟩
  · exact expressionArgument_unreadable hargument
  · rcases bind_eq_error_iff.1 h with heval | ⟨v, -, h⟩
    · exact absurd heval (eval_ne_parse e _)
    · rcases bind_eq_error_iff.1 h with htext | ⟨name, -, h⟩
      · exact absurd htext (toText_ne_parse v)
      · dsimp only at h
        split at h
        · cases h
        · rcases bind_eq_error_iff.1 h with hread | ⟨t, -, hok⟩
          · obtain ⟨fault, -, hcause⟩ := mapError_eq_error_iff.1 hread
            cases hcause
          · cases hok

theorem lineValues_ne_parse (es : List Expression) : lineValues scope es ≠ .error (.parse p) := by
  induction es with
  | nil => nofun
  | cons e es ih =>
    intro h
    rcases bind_eq_error_iff.1 h with heval | ⟨v, -, h⟩
    · exact eval_ne_parse e _ heval
    · rcases bind_eq_error_iff.1 h with hrest | ⟨vs, -, hok⟩
      · exact ih hrest
      · cases hok

end Causes

/-! ## Columns of faults -/

section Faults

variable {marker content argument : Text} {d : Directive} {p : ParseError} {column : Nat}

theorem atColumn_eq_error_iff {α : Type} {result : Except Cause α} {cause : Cause} {c : Nat} :
    atColumn column result = .error ⟨cause, c⟩ ↔ result = .error cause ∧ c = column := by
  unfold atColumn
  rw [mapError_eq_error_iff]
  constructor
  · rintro ⟨cause', hresult, hfault⟩
    obtain ⟨rfl, rfl⟩ := Fault.mk.inj hfault
    exact ⟨hresult, rfl⟩
  · rintro ⟨hresult, rfl⟩
    exact ⟨cause, hresult, rfl⟩

/-- The column of an argument is the one after what precedes it and its leading blanks. -/
theorem argumentColumn_append (lead argument : Text) :
    argumentColumn (lead ++ argument) argument =
      (lead ++ argument.takeWhile Text.isBlank).length + 1 := by
  have hlength := Text.length_eq_trimStart argument
  unfold argumentColumn columnOf
  rw [List.length_append, List.length_append]
  omega

theorem located_argument (hkind : lineKind marker content = .directive d argument)
    (hform : d.argumentForm = .expression ∨ d.argumentForm = .expressions)
    (hunreadable : Unreadable (Text.trim argument) p) :
    Located marker content p (argumentColumn content argument) := by
  obtain ⟨lead, rfl⟩ := suffix_of_lineKind hkind
  exact ⟨_, _, .argument hkind hform rfl, hunreadable, argumentColumn_append lead argument⟩

/-- The right side of an assignment, as far as its place goes. -/
theorem located_assignment (hkind : lineKind marker content = .directive d argument)
    (hform : d = .localVariable ∨ d = .global) {name source : Text}
    (hassign : d.assignmentArgument argument = .ok (name, source))
    (hunreadable : Unreadable (Text.trimEnd source) p) :
    Located marker content p
      (argumentColumn content argument + columnOf (Text.trimStart argument) source - 1) := by
  unfold Directive.assignmentArgument at hassign
  split at hassign
  · next before c right hcut =>
    obtain ⟨rfl, hc, hfirst⟩ := Text.eq_append_of_cutAt? hcut
    obtain rfl : c = '=' := of_decide_eq_true hc
    split at hassign
    · obtain ⟨-, rfl⟩ := Prod.mk.inj (Except.ok.inj hassign)
      obtain ⟨lead, rfl⟩ := suffix_of_lineKind hkind
      have hname : '=' ∉ before := fun hmem => by simpa using hfirst '=' hmem
      refine ⟨_, _, .assignment hkind hform hname rfl, hunreadable, ?_⟩
      have hright := Text.length_eq_trimStart right
      have hwhole := Text.length_eq_trimStart (before ++ '=' :: right)
      have hlonger := Text.length_trimStart_append_cons
        (show Text.isBlank '=' = false by decide) before right
      rw [argumentColumn_append]
      unfold columnOf
      simp only [List.length_append, List.length_cons] at *
      omega
    · cases hassign
  · cases hassign

theorem localEffect_located {scope : Scope} {c : Nat}
    (hkind : lineKind marker content = .directive .localVariable argument)
    (h : localEffect scope .localVariable argument (argumentColumn content argument) =
      .error ⟨.parse p, c⟩) : Located marker content p c := by
  unfold localEffect at h
  rcases bind_eq_error_iff.1 h with hassign | ⟨⟨name, source⟩, hassign, h⟩
  · exact absurd (atColumn_eq_error_iff.1 hassign).1 (structural_ne_parse _)
  · have hassignment := mapError_eq_ok_iff.1 (mapError_eq_ok_iff.1 hassign)
    rcases bind_eq_error_iff.1 h with hfails | ⟨v, -, hok⟩
    · obtain ⟨hvalue, rfl⟩ := atColumn_eq_error_iff.1 hfails
      exact located_assignment hkind (.inl rfl) hassignment (lineValue_unreadable hvalue)
    · cases hok

theorem defineEffect_located {scope : Scope} {c : Nat}
    (hkind : lineKind marker content = .directive .define argument)
    (h : defineEffect scope .define argument (argumentColumn content argument) =
      .error ⟨.parse p, c⟩) : Located marker content p c := by
  unfold defineEffect at h
  dsimp only at h
  -- an expression follows only where a blank ends the name
  cases hcut : Text.cutAt? Text.isBlank (Text.trim argument) with
  | none =>
    rw [hcut] at h
    rcases bind_eq_error_iff.1 h with hname | ⟨name, -, h⟩
    · exact absurd (atColumn_eq_error_iff.1 hname).1 (structural_ne_parse _)
    · cases h
  | some cut =>
    obtain ⟨first, blank, rest⟩ := cut
    rw [hcut] at h
    rcases bind_eq_error_iff.1 h with hname | ⟨name, -, h⟩
    · exact absurd (atColumn_eq_error_iff.1 hname).1 (structural_ne_parse _)
    · dsimp only at h
      split at h
      · cases h
      · rcases bind_eq_error_iff.1 h with hfails | ⟨v, -, hok⟩
        · obtain ⟨hvalue, rfl⟩ := atColumn_eq_error_iff.1 hfails
          obtain ⟨hinside, hblank, hfirst⟩ := Text.eq_append_of_cutAt? hcut
          obtain ⟨lead, rfl⟩ := suffix_of_lineKind hkind
          refine ⟨_, _, .definition hkind rfl hinside hblank hfirst, lineValue_unreadable hvalue, ?_⟩
          have hrest := Text.length_eq_trimStart rest
          rw [argumentColumn_append, hinside]
          unfold columnOf
          simp only [List.length_append, List.length_cons] at *
          omega
        · cases hok

/-- An insertion that cannot be read, and where it starts. -/
theorem renderPieces_unreadable {scope : Scope} {c : Nat} {skip start : Nat} {t : Text}
    (h : renderPieces scope (piecesFrom skip start t) = .error ⟨.parse p, c⟩) :
    ∃ lead rest body, t = lead ++ rest ∧ insertionAt? rest = some body ∧
      Unreadable (Text.trim body) p ∧
      c = start + (lead ++ (openMark ++ body.takeWhile Text.isBlank)).length := by
  fun_induction piecesFrom skip start t with
  | case1 => cases h
  | case2 skip start x t ih =>
    obtain ⟨lead, rest, body, rfl, hfound, hunreadable, hc⟩ := ih h
    refine ⟨x :: lead, rest, body, rfl, hfound, hunreadable, ?_⟩
    rw [List.cons_append, List.length_cons, hc]
    omega
  | case3 start x t taken htaken ih =>
    rcases bind_eq_error_iff.1 h with hrender | ⟨first, -, h⟩
    · obtain ⟨hvalue, rfl⟩ := atColumn_eq_error_iff.1 hrender
      refine ⟨[], x :: t, taken, rfl, htaken, ?_, ?_⟩
      · rcases bind_eq_error_iff.1 hvalue with hparse | ⟨e, -, hvalue⟩
        · exact unreadable_of_parse hparse
        · rcases bind_eq_error_iff.1 hvalue with heval | ⟨v, -, hok⟩
          · exact absurd heval (eval_ne_parse e _)
          · cases hok
      · unfold Text.leadingBlanks
        rw [List.nil_append, List.length_append]
        omega
    · rcases bind_eq_error_iff.1 h with hothers | ⟨others, -, hok⟩
      · obtain ⟨lead, rest, body, rfl, hfound, hunreadable, hc⟩ := ih hothers
        refine ⟨x :: lead, rest, body, rfl, hfound, hunreadable, ?_⟩
        rw [List.cons_append, List.length_cons, hc]
        omega
      · cases hok
  | case4 start x t hnone ih =>
    rcases bind_eq_error_iff.1 h with hrender | ⟨first, -, h⟩
    · cases hrender
    · rcases bind_eq_error_iff.1 h with hothers | ⟨others, -, hok⟩
      · obtain ⟨lead, rest, body, rfl, hfound, hunreadable, hc⟩ := ih hothers
        refine ⟨x :: lead, rest, body, rfl, hfound, hunreadable, ?_⟩
        rw [List.cons_append, List.length_cons, hc]
        omega
      · cases hok

theorem renderLine_located {scope : Scope} {c : Nat} (hkind : lineKind marker content = .plain)
    (h : renderLine scope content = .error ⟨.parse p, c⟩) : Located marker content p c := by
  unfold renderLine at h
  dsimp only at h
  split at h
  · cases h
  · split at h
    · next rest hrest =>
      obtain ⟨lead, inner, body, rfl, hfound, hunreadable, rfl⟩ :=
        renderPieces_unreadable (map_eq_error_iff.1 h)
      obtain ⟨outer, houter⟩ := (Text.suffix_of_stripStart? hrest).trans
        (Text.trimStart_suffix content)
      have hsplit : content = (outer ++ lead) ++ inner := by rw [← houter, List.append_assoc]
      refine ⟨_, _, .insertion hkind hsplit hfound, hunreadable, ?_⟩
      unfold columnOf
      rw [← houter]
      simp only [List.length_append]
      omega
    · obtain ⟨lead, rest, body, hsplit, hfound, hunreadable, rfl⟩ := renderPieces_unreadable h
      exact ⟨_, _, .insertion hkind hsplit hfound, hunreadable, Nat.add_comm _ _⟩

/-- An insertion of a message that cannot be read. -/
theorem insertValues_located {scope : Scope} {c : Nat}
    (hkind : lineKind marker content = .directive d argument)
    (hform : d = .echo ∨ d = .warning ∨ d = .error)
    (h : insertValues scope (argumentColumn content argument) (Text.trim argument) =
      .error ⟨.parse p, c⟩) : Located marker content p c := by
  obtain ⟨start, rest, body, hinside, hfound, hunreadable, rfl⟩ := renderPieces_unreadable h
  obtain ⟨lead, rfl⟩ := suffix_of_lineKind hkind
  refine ⟨_, _, .message hkind hform rfl hinside hfound, hunreadable, ?_⟩
  rw [argumentColumn_append]
  simp only [List.length_append]
  omega

/-- A directive outside of conditionals points at its expression that cannot be read. -/
theorem directiveEffect_located {env : Environment} {chain : List Position} {scope : Scope} {c : Nat}
    (hkind : lineKind marker content = .directive d argument)
    (h : directiveEffect env chain scope d argument (argumentColumn content argument) =
      .error ⟨.parse p, c⟩) : Located marker content p c := by
  unfold directiveEffect at h
  split at h
  · exact localEffect_located hkind h
  · exact defineEffect_located hkind h
  · rcases bind_eq_error_iff.1 (atColumn_eq_error_iff.1 h).1 with hname | ⟨name, -, hok⟩
    · exact absurd hname (structural_ne_parse _)
    · cases hok
  · rcases bind_eq_error_iff.1 h with hswitch | ⟨on, -, hok⟩
    · exact absurd (atColumn_eq_error_iff.1 hswitch).1 (structural_ne_parse _)
    · cases hok
  · rcases bind_eq_error_iff.1 h with hswitch | ⟨on, -, hok⟩
    · exact absurd (atColumn_eq_error_iff.1 hswitch).1 (structural_ne_parse _)
    · cases hok
  · unfold actionEffect at h
    split at h
    · cases h
    · obtain ⟨hfails, rfl⟩ := atColumn_eq_error_iff.1 h
      rcases bind_eq_error_iff.1 hfails with hargument | ⟨es, -, hvalues⟩
      · exact located_argument hkind (.inr rfl) (expressionsArgument_unreadable hargument)
      · rcases bind_eq_error_iff.1 hvalues with hvalues | ⟨vs, -, hok⟩
        · exact absurd hvalues (lineValues_ne_parse es)
        · cases hok
  · exact insertValues_located hkind (.inl rfl) (map_eq_error_iff.1 h)
  · exact insertValues_located hkind (.inr (.inl rfl)) (map_eq_error_iff.1 h)
  · rcases bind_eq_error_iff.1 h with hmessage | ⟨message, -, hstop⟩
    · exact insertValues_located hkind (.inr (.inr rfl)) hmessage
    · cases hstop
  · rcases bind_eq_error_iff.1 (atColumn_eq_error_iff.1 h).1 with hnone | ⟨_, -, hok⟩
    · exact absurd hnone (structural_ne_parse _)
    · cases hok
  · obtain ⟨hfails, rfl⟩ := atColumn_eq_error_iff.1 h
    rcases bind_eq_error_iff.1 hfails with hcondition | ⟨holds, -, hok⟩
    · exact located_argument hkind (.inl rfl) (conditionHolds_unreadable hcondition).2.2
    · cases hok
  · obtain ⟨hfails, rfl⟩ := atColumn_eq_error_iff.1 h
    exact located_argument hkind (.inl rfl) (includeEffect_unreadable hfails)
  · cases h

/-- The line pass points at the expression of a line that cannot be read. -/
theorem lineEffect_located {env : Environment} {chain : List Position} {here : Position}
    {m : Machine} {c : Nat} (h : lineEffect env chain here m content = .error ⟨.parse p, c⟩) :
    Located env.marker content p c := by
  unfold lineEffect at h
  match hkind : lineKind env.marker content with
  | .plain =>
    rw [hkind] at h
    dsimp only at h
    split at h
    · exact renderLine_located hkind (map_eq_error_iff.1 h)
    · cases h
  | .unknown rest =>
    rw [hkind] at h
    cases h
  | .directive d argument =>
    rw [hkind] at h
    dsimp only at h
    split at h
    · cases h
    · next hpass =>
      split at h
      · next hconditional =>
        obtain ⟨hblocks, rfl⟩ := atColumn_eq_error_iff.1 (map_eq_error_iff.1 h)
        obtain ⟨hform, hunreadable⟩ := conditionalBlocks_unreadable hpass hconditional hblocks
        exact located_argument hkind (.inl hform) hunreadable
      · split at h
        · exact directiveEffect_located hkind h
        · cases h

/-- The global pass points at the expression of a line that cannot be read. -/
theorem scanLine_located {s : Scan} {here : Position} {c : Nat}
    (h : scanLine marker s here content = .error ⟨.parse p, c⟩) : Located marker content p c := by
  unfold scanLine at h
  split at h
  · next d argument hkind =>
    unfold scanDirective at h
    split at h
    · obtain ⟨hfails, rfl⟩ := atColumn_eq_error_iff.1 h
      rcases bind_eq_error_iff.1 hfails with hopen | ⟨blocks, -, hok⟩
      · unfold Scan.openBlock at hopen
        split at hopen
        · rcases bind_eq_error_iff.1 hopen with hargument | ⟨e, -, hcondition⟩
          · exact located_argument hkind (.inl rfl) (expressionArgument_unreadable hargument)
          · rcases bind_eq_error_iff.1 hcondition with hcondition | ⟨holds, -, hok⟩
            · exact absurd hcondition (condition_ne_parse e _)
            · cases hok
        · cases hopen
      · cases hok
    · exact absurd (atColumn_eq_error_iff.1 h).1 (structural_ne_parse _)
    · exact absurd (atColumn_eq_error_iff.1 h).1 (structural_ne_parse _)
    · split at h
      · unfold Scan.define at h
        rcases bind_eq_error_iff.1 h with hassign | ⟨⟨name, source⟩, hassign, h⟩
        · exact absurd (atColumn_eq_error_iff.1 hassign).1 (structural_ne_parse _)
        · have hassignment := mapError_eq_ok_iff.1 (mapError_eq_ok_iff.1 hassign)
          obtain ⟨hfails, rfl⟩ := atColumn_eq_error_iff.1 h
          rcases bind_eq_error_iff.1 hfails with hparse | ⟨e, -, hvalue⟩
          · exact located_assignment hkind (.inr rfl) hassignment (unreadable_of_parse hparse)
          · rcases bind_eq_error_iff.1 hvalue with heval | ⟨v, -, hok⟩
            · exact absurd heval (eval_ne_parse e _)
            · cases hok
      · cases h
    · split at h
      · obtain ⟨hfails, rfl⟩ := atColumn_eq_error_iff.1 h
        rcases bind_eq_error_iff.1 hfails with hargument | ⟨e, -, hok⟩
        · exact located_argument hkind (.inl rfl) (expressionArgument_unreadable hargument)
        · cases hok
      · cases h
    · cases h
  · cases h

end Faults

/-! ## Diagnostics -/

/-- The column of a line is that of the character at which the reading of the expression `source`
failed, or just past it. -/
structure PointsInto (marker content : Text) (e : ParseError) (source : Text) (column : Nat) :
    Prop where
  reads : ∃ before, Reads marker content before source ∧ column = before.length + e.column
  unreadable : Unreadable source e
  /-- The failure is at a character of the expression, or just past it. -/
  inside : IsColumnOf source e.column
  /-- Counted back by the column of the failure, the expression stands there in the line. -/
  stands : e.column ≤ column ∧ source <+: content.drop (column - e.column)

theorem Located.pointsInto {marker content : Text} {e : ParseError} {column : Nat}
    (h : Located marker content e column) :
    ∃ source, PointsInto marker content e source ((Cause.parse e).column column) := by
  obtain ⟨before, source, hreads, hunreadable, rfl⟩ := h
  have hcolumn : (Cause.parse e).column (before.length + 1) = before.length + e.column := by
    show before.length + 1 + e.column - 1 = _
    omega
  refine ⟨source, ⟨before, hreads, hcolumn⟩, hunreadable, hunreadable.isColumnOf, ?_, ?_⟩
  · omega
  · obtain ⟨after, hafter⟩ := hreads.split
    rw [hcolumn, Nat.add_sub_cancel, hafter, List.append_assoc, List.drop_left]
    exact List.prefix_append source after

/-- The global pass fails at a line of the file. -/
theorem scanLines_failure {marker : Text} {file : Path} {contents : List Text} {line : Nat}
    {s : Scan} {d : Diagnostic} (h : (scanLines marker file line contents s).1 = .error d) :
    ∃ n content mid fault, contents[n]? = some content ∧
      scanLine marker mid ⟨file, line + n⟩ content = .error fault ∧
      d = fault.diagnostic [] ⟨file, line + n⟩ content := by
  obtain ⟨before, content, later, fault, rfl, -, hfault, hd⟩ := scanLines_failsAt (Prod.ext h rfl)
  refine ⟨before.length, content, _, fault, ?_, hfault, hd⟩
  rw [List.getElem?_append_right (Nat.le_refl _), Nat.sub_self]
  rfl

/-- A file that the global pass fails at fails at one of its lines, or its blocks are not closed. -/
theorem scanFile_failure {marker : Text} {file : Path} {t : Text} {globals : Table} {d : Diagnostic}
    (h : (scanFile marker file t globals).1 = .error d) :
    (∃ n content mid fault, (Text.lines t)[n]? = some content ∧
      scanLine marker mid ⟨file, 1 + n⟩ content = .error fault ∧
      d = fault.diagnostic [] ⟨file, 1 + n⟩ content) ∨ ∃ e, d.cause = .structural e := by
  unfold scanFile at h
  split at h
  · next failure s hlines =>
    obtain rfl := Except.error.inj h
    exact .inl (scanLines_failure (by rw [hlines]))
  · split at h
    · cases h
    · obtain rfl := Except.error.inj h
      exact .inr ⟨_, rfl⟩

/-- **A failed expression is pointed at where it stands.** Let a line of either pass fail because an
expression cannot be read, whatever the marker, the line and the state of the pass. Then the column
of the diagnostic is that of the very character of the line at which the reading of the expression
failed, or just past the expression.

And wherever a pass over a file fails in this way, its diagnostic names a line of the file, or of a
file that it includes, and points into that line. -/
theorem parse_failures_point :
    (∀ marker s here content fault e, scanLine marker s here content = .error fault →
      fault.cause = .parse e → ∃ source column,
        (fault.diagnostic [] here content).column = some column ∧
        PointsInto marker content e source column) ∧
    (∀ env chain here m content fault e, lineEffect env chain here m content = .error fault →
      fault.cause = .parse e → ∃ source column,
        (fault.diagnostic chain here content).column = some column ∧
        PointsInto env.marker content e source column) ∧
    (∀ marker file t globals d e, (scanFile marker file t globals).1 = .error d →
      d.cause = .parse e → ∃ n content source column, (Text.lines t)[n]? = some content ∧
        d.file = some file ∧ d.line = some (n + 1) ∧ d.column = some column ∧
        PointsInto marker content e source column) ∧
    (∀ env settings file t m d e, (processFile env settings file t m).1 = .error d →
      d.cause = .parse e → ∃ chain f u begun n content source column,
        Visits env file t m chain f u begun ∧ (Text.lines u)[n]? = some content ∧
        d.includedFrom = chain ∧ d.file = some f ∧ d.line = some (n + 1) ∧
        d.column = some column ∧ PointsInto env.marker content e source column) := by
  have hscan : ∀ marker s here content fault e, scanLine marker s here content = .error fault →
      fault.cause = .parse e → ∃ source column,
        (fault.diagnostic [] here content).column = some column ∧
        PointsInto marker content e source column := by
    rintro marker s here content ⟨cause, column⟩ e h (rfl : cause = _)
    obtain ⟨source, hpoints⟩ := (scanLine_located h).pointsInto
    exact ⟨source, _, rfl, hpoints⟩
  have hline : ∀ env chain here m content fault e,
      lineEffect env chain here m content = .error fault → fault.cause = .parse e →
        ∃ source column, (fault.diagnostic chain here content).column = some column ∧
          PointsInto env.marker content e source column := by
    rintro env chain here m content ⟨cause, column⟩ e h (rfl : cause = _)
    obtain ⟨source, hpoints⟩ := (lineEffect_located h).pointsInto
    exact ⟨source, _, rfl, hpoints⟩
  refine ⟨hscan, hline, ?_, ?_⟩
  · intro marker file t globals d e h hcause
    rcases scanFile_failure h with ⟨n, content, mid, fault, hcontent, hfault, rfl⟩ | ⟨_, hother⟩
    · obtain ⟨source, column, hcolumn, hpoints⟩ := hscan _ _ _ _ _ e hfault hcause
      exact ⟨n, content, source, column, hcontent, rfl, congrArg some (Nat.add_comm 1 n), hcolumn,
        hpoints⟩
    · rw [hcause] at hother
      cases hother
  · intro env settings file t m d e h hcause
    rcases processFile_originates h with
      ⟨chain, f, line, content, later, mid, fault, hat, hfault, rfl⟩ | ⟨_, hother⟩ | ⟨_, hother⟩
    · obtain ⟨source, column, hcolumn, hpoints⟩ := hline _ _ _ _ _ _ e hfault hcause
      obtain ⟨u, begun, n, hvisits, hcontent, rfl⟩ := hat.visited
      exact ⟨chain, f, u, begun, n, content, source, column, hvisits, hcontent, rfl, rfl, rfl,
        hcolumn, hpoints⟩
    · rw [hcause] at hother
      cases hother
    · rw [hcause] at hother
      cases hother

/-! ## An assignment after an ideographic space -/

/-- The failure of a result, if it is one. -/
def failure? {ε α : Type} : Except ε α → Option ε
  | .error e => some e
  | .ok _ => none

theorem eq_error_of_failure? {ε α : Type} {x : Except ε α} {e : ε} (h : failure? x = some e) :
    x = .error e := by
  match x, h with
  | .error _, h => exact congrArg _ (Option.some.inj h)

/-- The line assigns an expression that ends with a parenthesis which it did not open. -/
def openEnded : Text := "\u3000@local x = 1 + )".toList

/-- The parenthesis is the fifth character of the expression and the seventeenth of the line. -/
theorem openEnded_points :
    ∃ source, PointsInto ['@'] openEnded (.missingOperand 5) source 17 := by
  have hfault : failure? (lineEffect ⟨['@'], .empty [], none⟩ [] ⟨⟨"main".toList⟩, 1⟩
      ⟨{}, .empty, [], []⟩ openEnded) = some ⟨.parse (.missingOperand 5), 13⟩ := by decide +kernel
  obtain ⟨-, hline, -⟩ := parse_failures_point
  obtain ⟨source, column, hcolumn, hpoints⟩ :=
    hline _ _ _ _ _ _ _ (eq_error_of_failure? hfault) rfl
  obtain rfl : 17 = column := Option.some.inj hcolumn
  exact ⟨source, hpoints⟩

end SourcePreprocessor
