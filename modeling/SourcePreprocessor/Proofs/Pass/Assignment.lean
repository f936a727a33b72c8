import SourcePreprocessor.Definition
import SourcePreprocessor.Proofs.Expr.RoundTrip
import SourcePreprocessor.Proofs.Pass.Inclusion
import SourcePreprocessor.Proofs.Pass.Relocation
import SourcePreprocessor.Proofs.Pass.Structured
import SourcePreprocessor.Proofs.Text.Trim

/-!
# The ways to write an assignment

A text `name=expression` can be given as a definition, as a line of a configuration file, and as the
argument of two directives, one for variables of the run and one for variables of a file. Each way
trims and cuts the text on its own. What they all read is `assignment?`: the name and the text of the
expression, both trimmed, on the two sides of the first equals sign.

> `assignment?_trim`: blanks around the text make no difference to it;
> `evaluateDefinition_eq`, `Scan.define_eq`, `localEffect_eq`: it is what the ways read;
> `assignments_agree`: so they all bind the same name to the same value, or all fail.
-/

namespace SourcePreprocessor

/-! ## What is read -/

/-- The name and the text of the expression that a text assigns to it, if it is an assignment. -/
def assignment? (t : Text) : Option (Text × Text) :=
  match Text.cutAt? (· = '=') t with
  | some (before, _, after) =>
    if isName (Text.trim before) then some (Text.trim before, Text.trim after) else none
  | none => none

theorem ne_equals_of_isBlank {c : Char} (h : Text.isBlank c = true) : decide (c = '=') = false := by
  refine decide_eq_false fun hc => ?_
  subst hc
  exact absurd h (by decide)

theorem cutAt?_equals {before : Text} (hfirst : '=' ∉ before) (after : Text) :
    Text.cutAt? (· = '=') (before ++ '=' :: after) = some (before, '=', after) := by
  have hbefore : ∀ c ∈ before, decide (c = '=') = false := fun c hc =>
    decide_eq_false fun h => hfirst (h ▸ hc)
  rw [Text.cutAt?_append hbefore, Text.cutAt?_cons (by decide)]
  dsimp only [Option.map_some]
  rw [List.append_nil]

theorem assignment?_intro {before after : Text} (hfirst : '=' ∉ before)
    (hname : isName (Text.trim before) = true) :
    assignment? (before ++ '=' :: after) = some (Text.trim before, Text.trim after) := by
  unfold assignment?
  rw [cutAt?_equals hfirst]
  exact if_pos hname

/-- A text is an assignment when there is a name before its first equals sign. -/
theorem assignment?_eq_some_iff {t name source : Text} :
    assignment? t = some (name, source) ↔ ∃ before after, t = before ++ '=' :: after ∧
      '=' ∉ before ∧ isName (Text.trim before) = true ∧ name = Text.trim before ∧
        source = Text.trim after := by
  constructor
  · intro h
    unfold assignment? at h
    split at h
    · next before c after hcut =>
      obtain ⟨rfl, hc, hfirst⟩ := Text.eq_append_of_cutAt? hcut
      obtain rfl : c = '=' := of_decide_eq_true hc
      split at h
      · next hname =>
        obtain ⟨rfl, rfl⟩ := Prod.mk.inj (Option.some.inj h)
        exact ⟨before, after, rfl, fun hmem => of_decide_eq_false (hfirst '=' hmem) rfl, hname, rfl,
          rfl⟩
      · nomatch h
    · nomatch h
  · rintro ⟨before, after, rfl, hfirst, hname, rfl, rfl⟩
    exact assignment?_intro hfirst hname

/-- A text is none when it has no equals sign, or no name before the first one. -/
theorem cutAt?_of_assignment?_eq_none {t : Text} (h : assignment? t = none) :
    Text.cutAt? (· = '=') t = none ∨ ∃ before c after,
      Text.cutAt? (· = '=') t = some (before, c, after) ∧ ¬ isName (Text.trim before) = true := by
  cases hcut : Text.cutAt? (· = '=') t with
  | none => exact .inl rfl
  | some cut =>
    obtain ⟨before, c, after⟩ := cut
    refine .inr ⟨before, c, after, rfl, fun hname => ?_⟩
    unfold assignment? at h
    rw [hcut] at h
    dsimp only at h
    rw [if_pos hname] at h
    nomatch h

/-- Blanks around an assignment make no difference. -/
theorem assignment?_trim (t : Text) : assignment? (Text.trim t) = assignment? t := by
  obtain ⟨before, after, ht, hbefore, hafter⟩ := Text.exists_blanks_trim t
  generalize Text.trim t = u at ht
  subst ht
  unfold assignment?
  rw [List.append_assoc, Text.cutAt?_append fun c hc => ne_equals_of_isBlank (hbefore c hc)]
  cases hcut : Text.cutAt? (· = '=') u with
  | none =>
    have hnone : Text.cutAt? (· = '=') after = none :=
      Text.cutAt?_eq_none_iff.2 fun c hc => ne_equals_of_isBlank (hafter c hc)
    rw [Text.cutAt?_append (Text.cutAt?_eq_none_iff.1 hcut), hnone]
    rfl
  | some cut =>
    obtain ⟨name, c, source⟩ := cut
    obtain ⟨rfl, hc, hfirst⟩ := Text.eq_append_of_cutAt? hcut
    rw [List.append_assoc, Text.cutAt?_append hfirst, List.cons_append, Text.cutAt?_cons hc]
    dsimp only [Option.map_some]
    rw [List.append_nil, Text.trim_blanks_append hbefore, Text.trim_append_blanks hafter]

/-! ## How the ways read it -/

section Ways

variable {T name source : Text}

theorem lower_of_assignment? (h : assignment? T = some (name, source)) :
    Text.lower (Text.lower name) = Text.lower name := by
  obtain ⟨before, after, -, -, hname, rfl, -⟩ := assignment?_eq_some_iff.1 h
  exact (lower_of_isName hname).2

/-- A definition gives the value of its expression. -/
theorem evaluateDefinition_eq (h : assignment? T = some (name, source)) (here : Position)
    (globals : Table) : evaluateDefinition T here globals =
      (lineValue ⟨here.file, here.line, none, globals⟩ source).map (name, ·) := by
  obtain ⟨before, after, rfl, hfirst, hname, rfl, rfl⟩ := assignment?_eq_some_iff.1 h
  unfold evaluateDefinition lineValue
  rw [cutAt?_equals hfirst]
  dsimp only
  rw [if_pos hname]
  cases parse (Text.trim after) with
  | error e => rfl
  | ok e =>
    rw [mapError_ok, ok_bind, ok_bind]
    cases e.eval (Scope.get? ⟨here.file, here.line, none, globals⟩) <;> rfl

theorem evaluateDefinition_none (h : assignment? T = none) (here : Position) (globals : Table) :
    evaluateDefinition T here globals = .error (.definition T) := by
  unfold evaluateDefinition
  obtain hcut | ⟨before, c, after, hcut, hname⟩ := cutAt?_of_assignment?_eq_none h
  · rw [hcut]
  · rw [hcut]
    exact if_neg hname

/-- The argument of a directive is read as the name in lower case and the text from the expression
on. -/
theorem assignmentArgument_eq (h : assignment? T = some (name, source)) (d : Directive) :
    ∃ right, d.assignmentArgument T = .ok (Text.lower name, right) ∧
      Text.trimEnd right = source := by
  obtain ⟨before, after, rfl, hfirst, hname, rfl, rfl⟩ := assignment?_eq_some_iff.1 h
  refine ⟨Text.trimStart after, ?_, rfl⟩
  unfold Directive.assignmentArgument
  rw [cutAt?_equals hfirst]
  exact if_pos hname

theorem assignmentArgument_none (h : assignment? T = none) (d : Directive) :
    d.assignmentArgument T = .error (.malformedAssignment d (Text.trim T)) := by
  unfold Directive.assignmentArgument
  obtain hcut | ⟨before, c, after, hcut, hname⟩ := cutAt?_of_assignment?_eq_none h
  · rw [hcut]
  · rw [hcut]
    exact if_neg hname

theorem localEffect_eq (h : assignment? T = some (name, source)) (scope : Scope) (d : Directive)
    (column : Nat) : ∃ start, localEffect scope d T column =
      (atColumn start (lineValue scope source)).map (.bindLocal (Text.lower name)) := by
  obtain ⟨right, hargument, rfl⟩ := assignmentArgument_eq h d
  refine ⟨column + columnOf (Text.trimStart T) right - 1, ?_⟩
  unfold localEffect
  rw [hargument]
  show (atColumn (column + columnOf (Text.trimStart T) right - 1)
    (lineValue scope (Text.trimEnd right)) >>= fun v => .ok (Effect.bindLocal (Text.lower name) v)) = _
  cases lineValue scope (Text.trimEnd right) <;> rfl

theorem localEffect_none (h : assignment? T = none) (scope : Scope) (d : Directive) (column : Nat) :
    localEffect scope d T column =
      .error ⟨.structural (.malformedAssignment d (Text.trim T)), column⟩ := by
  unfold localEffect
  rw [assignmentArgument_none h]
  rfl

theorem Scan.define_eq (h : assignment? T = some (name, source)) (s : Scan) (here : Position)
    (d : Directive) (column : Nat) : ∃ start, s.define here d T column =
      (atColumn start (lineValue (s.scope here) source)).map fun v =>
        { s with
          globals := s.globals.set (Text.lower name) v
          log := s.log ++ [⟨.detail, here.string ++ ": global " ++ (Text.lower name).string ++ " = " ++
            Text.string v.literal⟩] } := by
  obtain ⟨right, hargument, rfl⟩ := assignmentArgument_eq h d
  exact ⟨_, define_of_assignment hargument column⟩

theorem Scan.define_none (h : assignment? T = none) (s : Scan) (here : Position) (d : Directive)
    (column : Nat) : s.define here d T column =
      .error ⟨.structural (.malformedAssignment d (Text.trim T)), column⟩ := by
  unfold Scan.define
  rw [assignmentArgument_none h]
  rfl

end Ways

/-! ## The ways agree -/

/-- The line is this directive, and its argument is the text, up to blanks around it. -/
def Carries (marker : Text) (d : Directive) (T content : Text) : Prop :=
  ∃ argument, lineKind marker content = .directive d argument ∧ Text.trim argument = Text.trim T

/-- The line with this number holds the text, up to blanks around it, and is the only one of the
configuration file that is no comment. -/
def OnlyEntry (T : Text) (line : Nat) (t : Text) : Prop :=
  isComment (Text.trim T) = false ∧ ∃ before content after,
    Text.lines t = before ++ content :: after ∧ line = before.length + 1 ∧
      Text.trim content = Text.trim T ∧ ∀ other ∈ before ++ after, isComment (Text.trim other) = true

/-- Every way to write the text as an assignment at a place, with these variables of the run, gives
the variable of this name, in lower case, the value. -/
structure AllBind (T : Text) (here : Position) (G : Table) (name : Text) (v : Value) : Prop where
  lower : Text.lower name = name
  definition : ∀ log, ∃ log', Definitions.add ⟨G, log⟩ T here = .ok ⟨G.set name v, log'⟩
  configuration : ∀ t log, OnlyEntry T here.line t →
    ∃ log', Definitions.addFile ⟨G, log⟩ here.file t = (.ok (), ⟨G.set name v, log'⟩)
  global : ∀ marker content (s : Scan), Carries marker .global T content →
    s.blocks.isActive = true → s.globals = G →
      ∃ log', scanLines marker here.file here.line [content] s =
        (.ok (), { s with globals := G.set name v, log := log' })
  localVariable : ∀ enter env chain content (m : Machine),
    Carries env.marker .localVariable T content → m.state.blocks.isActive = true →
    m.state.locals = .empty → m.globals = G →
      processLine enter env chain here content m =
        (.ok .next, { m with state := { m.state with locals := Table.empty.set name v } })

/-- Every way to write the text as an assignment at a place, with these variables of the run, fails
with such a cause and changes nothing. -/
structure AllFail (T : Text) (here : Position) (G : Table) (Why : Cause → Prop) : Prop where
  definition : ∀ log, ∃ cause, Definitions.add ⟨G, log⟩ T here = .error cause ∧ Why cause
  configuration : ∀ t log, OnlyEntry T here.line t →
    ∃ d, Definitions.addFile ⟨G, log⟩ here.file t = (.error d, ⟨G, log⟩) ∧ Why d.cause
  global : ∀ marker content (s : Scan), Carries marker .global T content →
    s.blocks.isActive = true → s.globals = G →
      ∃ d, scanLines marker here.file here.line [content] s = (.error d, s) ∧ Why d.cause
  localVariable : ∀ enter env chain content (m : Machine),
    Carries env.marker .localVariable T content → m.state.blocks.isActive = true →
    m.state.locals = .empty → m.globals = G →
      ∃ d, processLine enter env chain here content m = (.error d, m) ∧ Why d.cause

theorem Table.erase_lower {name : Text} (h : Text.lower (Text.lower name) = Text.lower name)
    (t : Table) : t.erase (Text.lower name) = t.erase name := by
  unfold Table.erase
  rw [h]

theorem Table.set_lower {name : Text} (h : Text.lower (Text.lower name) = Text.lower name)
    (t : Table) (v : Value) : t.set (Text.lower name) v = t.set name v := by
  unfold Table.set
  rw [Table.erase_lower h, h]

/-- While no variable of the file is defined, a line sees what a definition at its place does. -/
theorem lineValue_emptyLocals {m : Machine} (hlocals : m.state.locals = .empty) (here : Position)
    (source : Text) :
    lineValue (m.scope here) source =
      lineValue ⟨here.file, here.line, none, m.globals⟩ source := by
  have hget : (m.scope here).get? = Scope.get? ⟨here.file, here.line, none, m.globals⟩ := by
    unfold Machine.scope
    rw [hlocals]
    rfl
  unfold lineValue
  rw [hget]

theorem exists_expression_of_lineValue {scope : Scope} {source : Text} {cause : Cause}
    (h : lineValue scope source = .error cause) : ∃ e, cause = .expression e := by
  rcases bind_eq_error_iff.1 h with h | ⟨e, -, h⟩
  · obtain ⟨e, -, rfl⟩ := mapError_eq_error_iff.1 h
    exact ⟨.parse e, rfl⟩
  · obtain ⟨e, -, rfl⟩ := mapError_eq_error_iff.1 h
    exact ⟨e, rfl⟩

/-- Comments are passed over. -/
theorem Definitions.addLines_comments {file : Path} {comments : List Text}
    (h : ∀ other ∈ comments, isComment (Text.trim other) = true) (line : Nat) (rest : List Text)
    (ds : Definitions) :
    addLines file line (comments ++ rest) ds = addLines file (line + comments.length) rest ds := by
  induction comments generalizing line with
  | nil => rfl
  | cons comment comments ih =>
    rw [List.forall_mem_cons] at h
    rw [List.cons_append, addLines]
    dsimp only
    rw [if_pos h.1, ih h.2, List.length_cons, Nat.add_assoc, Nat.add_comm 1]

/-- A configuration file with one entry does what the entry does. -/
theorem addFile_onlyEntry {T t : Text} {here : Position} (h : OnlyEntry T here.line t)
    (ds : Definitions) :
    ds.addFile here.file t = match ds.add (Text.trim T) here with
      | .ok after => (.ok (), after)
      | .error cause =>
        (.error { Diagnostic.atLine cause here with fragment := some (Text.trim T) }, ds) := by
  obtain ⟨hentry, before, content, after, hlines, hline, hcontent, hcomments⟩ := h
  rw [List.forall_mem_append] at hcomments
  have hafter (ds : Definitions) :
      Definitions.addLines here.file (here.line + 1) after ds = (.ok (), ds) := by
    rw [← List.append_nil after, Definitions.addLines_comments hcomments.2]
    rfl
  unfold Definitions.addFile
  rw [hlines, Definitions.addLines_comments hcomments.1, Nat.add_comm 1, ← hline,
    Definitions.addLines]
  dsimp only
  rw [hcontent, hentry, if_neg Bool.false_ne_true]
  cases ds.add (Text.trim T) here with
  | ok ds => exact hafter ds
  | error cause => rfl

section Carried

variable {marker T content : Text}

theorem exists_argument {d : Directive} (h : Carries marker d T content) :
    ∃ argument, lineKind marker content = .directive d argument ∧
      assignment? argument = assignment? T := by
  obtain ⟨argument, hkind, htrim⟩ := h
  refine ⟨argument, hkind, ?_⟩
  rw [← assignment?_trim, htrim, assignment?_trim]

theorem scanLines_carries (h : Carries marker .global T content) {s : Scan}
    (hactive : s.blocks.isActive = true) (here : Position) :
    ∃ argument column, assignment? argument = assignment? T ∧
      scanLines marker here.file here.line [content] s =
        match s.define here .global argument column with
        | .error fault => (.error (fault.diagnostic [] here content), s)
        | .ok after => (.ok (), after) := by
  obtain ⟨argument, hkind, hassignment⟩ := exists_argument h
  refine ⟨argument, argumentColumn content argument, hassignment, ?_⟩
  have hline : scanLine marker s here content =
      s.define here .global argument (argumentColumn content argument) := by
    unfold scanLine
    rw [hkind]
    exact if_pos hactive
  rw [scanLines, hline]
  cases s.define here .global argument (argumentColumn content argument) <;> rfl

theorem lineEffect_carries {env : Environment} {m : Machine}
    (h : Carries env.marker .localVariable T content) (hactive : m.state.blocks.isActive = true)
    (chain : List Position) (here : Position) :
    ∃ argument column, assignment? argument = assignment? T ∧
      lineEffect env chain here m content =
        localEffect (m.scope here) .localVariable argument column := by
  obtain ⟨argument, hkind, hassignment⟩ := exists_argument h
  refine ⟨argument, argumentColumn content argument, hassignment, ?_⟩
  unfold lineEffect
  rw [hkind]
  exact if_pos hactive

end Carried

section Agreement

variable {T name source : Text} {here : Position} {G : Table} {Why : Cause → Prop}

/-- A text that is no assignment fails in every way. -/
theorem allFail_of_none (h : assignment? T = none) (hwhy : ∀ cause, Why cause) :
    AllFail T here G Why where
  definition log := by
    rw [Definitions.add, evaluateDefinition_none h]
    exact ⟨_, rfl, hwhy _⟩
  configuration t log honly := by
    rw [addFile_onlyEntry honly, Definitions.add,
      evaluateDefinition_none ((assignment?_trim T).trans h)]
    exact ⟨_, rfl, hwhy _⟩
  global marker content s hcarries hactive _ := by
    obtain ⟨argument, column, hassignment, hscan⟩ := scanLines_carries hcarries hactive here
    rw [hscan, Scan.define_none (hassignment.trans h)]
    exact ⟨_, rfl, hwhy _⟩
  localVariable enter env chain content m hcarries hactive _ _ := by
    obtain ⟨argument, column, hassignment, heffect⟩ := lineEffect_carries hcarries hactive chain here
    rw [localEffect_none (hassignment.trans h)] at heffect
    unfold processLine
    rw [heffect]
    exact ⟨_, rfl, hwhy _⟩

/-- An expression without a value fails in every way, with the same cause. -/
theorem allFail_of_error (h : assignment? T = some (name, source)) {cause : Cause}
    (hvalue : lineValue ⟨here.file, here.line, none, G⟩ source = .error cause) (hwhy : Why cause) :
    AllFail T here G Why where
  definition log := by
    rw [Definitions.add, evaluateDefinition_eq h, hvalue]
    exact ⟨_, rfl, hwhy⟩
  configuration t log honly := by
    rw [addFile_onlyEntry honly, Definitions.add,
      evaluateDefinition_eq ((assignment?_trim T).trans h), hvalue]
    exact ⟨_, rfl, hwhy⟩
  global marker content s hcarries hactive hglobals := by
    subst hglobals
    obtain ⟨argument, column, hassignment, hscan⟩ := scanLines_carries hcarries hactive here
    obtain ⟨start, hdefine⟩ := Scan.define_eq (hassignment.trans h) s here .global column
    rw [show lineValue (s.scope here) source = .error cause from hvalue] at hdefine
    rw [hscan, hdefine]
    exact ⟨_, rfl, hwhy⟩
  localVariable enter env chain content m hcarries hactive hlocals hglobals := by
    subst hglobals
    obtain ⟨argument, column, hassignment, heffect⟩ := lineEffect_carries hcarries hactive chain here
    obtain ⟨start, hlocal⟩ :=
      localEffect_eq (hassignment.trans h) (m.scope here) .localVariable column
    rw [lineValue_emptyLocals hlocals, hvalue] at hlocal
    unfold processLine
    rw [heffect, hlocal]
    exact ⟨_, rfl, hwhy⟩

/-- An expression with a value binds the name in every way. -/
theorem allBind_of_ok (h : assignment? T = some (name, source)) {v : Value}
    (hvalue : lineValue ⟨here.file, here.line, none, G⟩ source = .ok v) :
    AllBind T here G (Text.lower name) v where
  lower := lower_of_assignment? h
  definition log := by
    rw [Definitions.add, evaluateDefinition_eq h, hvalue, Table.set_lower (lower_of_assignment? h)]
    exact ⟨_, rfl⟩
  configuration t log honly := by
    rw [addFile_onlyEntry honly, Definitions.add,
      evaluateDefinition_eq ((assignment?_trim T).trans h), hvalue,
      Table.set_lower (lower_of_assignment? h)]
    exact ⟨_, rfl⟩
  global marker content s hcarries hactive hglobals := by
    subst hglobals
    obtain ⟨argument, column, hassignment, hscan⟩ := scanLines_carries hcarries hactive here
    obtain ⟨start, hdefine⟩ := Scan.define_eq (hassignment.trans h) s here .global column
    rw [show lineValue (s.scope here) source = .ok v from hvalue] at hdefine
    rw [hscan, hdefine]
    exact ⟨_, rfl⟩
  localVariable enter env chain content m hcarries hactive hlocals hglobals := by
    subst hglobals
    obtain ⟨argument, column, hassignment, heffect⟩ := lineEffect_carries hcarries hactive chain here
    obtain ⟨start, hlocal⟩ :=
      localEffect_eq (hassignment.trans h) (m.scope here) .localVariable column
    rw [lineValue_emptyLocals hlocals, hvalue] at hlocal
    unfold processLine
    rw [heffect, hlocal, ← hlocals]
    rfl

end Agreement

/-- **All ways to write an assignment agree.** A text given as a definition, as the only entry of a
configuration file, as the argument of a directive that defines a variable of the run, or of one that
defines a variable of a file with none so far, at the same place and with the same variables of the
run: either every way binds the same name, in lower case, to the same value, or every way fails and
changes nothing. When the text is a name and an expression, the ways that fail do so with the error
of the expression. -/
theorem assignments_agree (T : Text) (here : Position) (G : Table) :
    (∃ name v, AllBind T here G name v) ∨
      AllFail T here G fun cause => ∀ before right, T = before ++ '=' :: right → '=' ∉ before →
        isName (Text.trim before) = true →
          lineValue ⟨here.file, here.line, none, G⟩ (Text.trim right) = .error cause ∧
            ∃ e, cause = .expression e := by
  cases hassignment : assignment? T with
  | none =>
    refine .inr (allFail_of_none hassignment fun cause before right hT hfirst hname => ?_)
    rw [hT, assignment?_intro hfirst hname] at hassignment
    nomatch hassignment
  | some found =>
    obtain ⟨name, source⟩ := found
    cases hvalue : lineValue ⟨here.file, here.line, none, G⟩ source with
    | ok v => exact .inl ⟨Text.lower name, v, allBind_of_ok hassignment hvalue⟩
    | error cause =>
      refine .inr (allFail_of_error hassignment hvalue fun before right hT hfirst hname => ?_)
      rw [hT, assignment?_intro hfirst hname] at hassignment
      obtain ⟨-, rfl⟩ := Prod.mk.inj (Option.some.inj hassignment)
      exact ⟨hvalue, exists_expression_of_lineValue hvalue⟩

/-- Only the first equals sign is that of the assignment, and the name has a capital letter. -/
def answerText : Text := " Answer = 6 * 7 == 42 ".toList

/-- A definition, the only entry of a configuration file and the second lines of two files bind the
name to the same value. -/
theorem answerText_binds :
    (∃ log, Definitions.add ⟨.empty, []⟩ answerText ⟨⟨"main".toList⟩, 2⟩ =
      .ok ⟨Table.empty.set "answer".toList (.bool true), log⟩) ∧
    (∃ log, Definitions.addFile ⟨.empty, []⟩ ⟨"main".toList⟩
      "# the answer\n Answer = 6 * 7 == 42\n".toList =
        (.ok (), ⟨Table.empty.set "answer".toList (.bool true), log⟩)) ∧
    (∃ log, scanLines ['@'] ⟨"main".toList⟩ 2 [" @global Answer = 6 * 7 == 42".toList]
      (.start .empty) = (.ok (), { Scan.start .empty with
        globals := Table.empty.set "answer".toList (.bool true), log })) ∧
    processLine skipFile noFiles [] ⟨⟨"main".toList⟩, 2⟩ "@local\tAnswer = 6 * 7 == 42 ".toList
      freshMachine = (.ok .next, { freshMachine with
        state := { freshMachine.state with
          locals := Table.empty.set "answer".toList (.bool true) } }) := by
  have hvalue : (Definitions.add ⟨.empty, []⟩ answerText ⟨⟨"main".toList⟩, 2⟩).toOption.map
      (·.globals) = some (Table.empty.set "answer".toList (.bool true)) := by decide +kernel
  have hbind : AllBind answerText ⟨⟨"main".toList⟩, 2⟩ .empty "answer".toList (.bool true) := by
    rcases assignments_agree answerText ⟨⟨"main".toList⟩, 2⟩ .empty with ⟨name, v, h⟩ | h
    · obtain ⟨log, hadd⟩ := h.definition []
      rw [hadd] at hvalue
      have hentries := congrArg Table.entries (Option.some.inj hvalue)
      obtain ⟨hname, rfl⟩ := Prod.mk.inj (List.cons.inj hentries).1
      obtain rfl : name = "answer".toList := h.lower.symm.trans hname
      exact h
    · obtain ⟨cause, hadd, -⟩ := h.definition []
      rw [hadd] at hvalue
      nomatch hvalue
  refine ⟨hbind.definition [], hbind.configuration _ _ ?_, hbind.global _ _ _ ?_ rfl rfl,
    hbind.localVariable _ _ _ _ _ ?_ rfl rfl rfl⟩
  · exact ⟨by decide +kernel, ["# the answer".toList], " Answer = 6 * 7 == 42".toList, [],
      by decide +kernel, rfl, by decide +kernel, by decide +kernel⟩
  · exact ⟨" Answer = 6 * 7 == 42".toList, by decide +kernel, by decide +kernel⟩
  · exact ⟨"\tAnswer = 6 * 7 == 42 ".toList, by decide +kernel, by decide +kernel⟩

end SourcePreprocessor
