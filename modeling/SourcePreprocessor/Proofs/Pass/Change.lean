import SourcePreprocessor.Proofs.Pass.Assignment

/-!
# Changes of variables

Three directives change variables: one assigns a variable of the file, one defines a variable of the
run, and one makes a name undefined in both. `WritesLine` reads off a line which of the changes it
carries out, with the name and the value. The lines with changes are the only ones that touch the
tables:

> `exists_writesLine`: a line that asks for a change carries out one of the three;
> `tables_perform_effect` and `tables_perform`: what it does to the tables, and that nothing else
> does anything to them.
-/

namespace SourcePreprocessor

/-! ## The three changes -/

/-- A change of the variables, with the name as it is written. -/
inductive Write where
  /-- Of a variable of the file. -/
  | assign (name : Text) (v : Value)
  /-- Of a variable of the run. -/
  | define (name : Text) (v : Value)
  | undefine (name : Text)

namespace Write

/-- The name as it is written. -/
def name : Write → Text
  | .assign name _ | .define name _ | .undefine name => name

/-- What a line asks for that carries out the change. -/
def effect : Write → Effect
  | .assign name v => .bindLocal (Text.lower name) v
  | .define name v => .bindGlobal (Text.lower name) v
  | .undefine name => .unbind (Text.lower name)

/-- The variables of the file and those of the run after the change. -/
def apply (w : Write) (ts : Table × Table) : Table × Table :=
  match w with
  | .assign name v => (ts.1.set (Text.lower name) v, ts.2)
  | .define name v => (ts.1, ts.2.set (Text.lower name) v)
  | .undefine name => (ts.1.erase (Text.lower name), ts.2.erase (Text.lower name))

end Write

/-- The line with this content carries out the change, where text is kept. -/
inductive WritesLine (marker : Text) (scope : Scope) (content : Text) : Write → Prop
  | assign {name source : Text} {v : Value}
    (kind : lineKind marker content = .directive .localVariable (name ++ '=' :: source))
    (first : '=' ∉ name) (named : isName (Text.trim name) = true)
    (value : lineValue scope (Text.trim source) = .ok v) :
    WritesLine marker scope content (.assign (Text.trim name) v)
  | define {argument name source : Text} {c : Char} {v : Value}
    (kind : lineKind marker content = .directive .define argument)
    (split : Text.trim argument = name ++ c :: source) (blank : Text.isBlank c = true)
    (named : isName name = true) (value : lineValue scope (Text.trimStart source) = .ok v) :
    WritesLine marker scope content (.define name v)
  | defineTrue {argument : Text} (kind : lineKind marker content = .directive .define argument)
    (named : isName (Text.trim argument) = true) :
    WritesLine marker scope content (.define (Text.trim argument) (.bool true))
  | undefine {argument : Text} (kind : lineKind marker content = .directive .undefine argument)
    (named : isName (Text.trim argument) = true) :
    WritesLine marker scope content (.undefine (Text.trim argument))

/-! ## What a line changes -/

theorem isBlank_of_isNamePart {c : Char} (h : isNamePart c = true) : Text.isBlank c = false := by
  have hrange : 36 ≤ c.toNat ∧ c.toNat ≤ 122 := by
    simp only [isNamePart, Char.isAlphanum, Bool.or_eq_true, isAlpha_iff, isDigit_iff,
      decide_eq_true_eq] at h
    rcases h with (((h | h) | rfl) | rfl) | rfl
    · omega
    · omega
    all_goals decide
  simp only [Text.isBlank, Bool.or_eq_false_iff, Bool.and_eq_false_iff, decide_eq_false_iff_not,
    beq_eq_false_iff_ne]
  omega

theorem isBlank_of_isName {name : Text} (h : isName name = true) :
    ∀ c ∈ name, Text.isBlank c = false := fun _ hc => isBlank_of_isNamePart (isNamePart_of_mem h hc)

/-- The name of a variable is the argument without the blanks around it, in lower case. -/
theorem variableArgument_eq_ok_iff {d : Directive} {t name : Text} :
    d.variableArgument t = .ok name ↔
      isName (Text.trim t) = true ∧ name = Text.lower (Text.trim t) := by
  unfold Directive.variableArgument Directive.neededArgument
  by_cases hempty : (Text.trim t).isEmpty
  · rw [if_pos hempty, List.isEmpty_iff.1 hempty]
    exact ⟨nofun, fun h => nomatch h.1⟩
  · rw [if_neg hempty, ok_bind]
    split
    · next hname => exact ⟨fun h => ⟨hname, (Except.ok.inj h).symm⟩, fun h => congrArg _ h.2.symm⟩
    · next hname => exact ⟨nofun, fun h => absurd h.1 hname⟩

/-- Whether an effect changes variables. -/
def Effect.isWrite : Effect → Bool
  | .bindLocal .. | .bindGlobal .. | .unbind _ => true
  | _ => false

section Lines

variable {env : Environment} {chain : List Position} {here : Position} {m : Machine}
  {content argument : Text} {scope : Scope} {column : Nat} {e : Effect}

theorem localEffect_eq_ok_iff {d : Directive} :
    localEffect scope d argument column = .ok e ↔
      ∃ name source v, argument = name ++ '=' :: source ∧ '=' ∉ name ∧
        isName (Text.trim name) = true ∧ lineValue scope (Text.trim source) = .ok v ∧
          e = .bindLocal (Text.lower (Text.trim name)) v := by
  constructor
  · intro h
    cases hassignment : assignment? argument with
    | none => nomatch (localEffect_none hassignment scope d column).symm.trans h
    | some found =>
      obtain ⟨name, source⟩ := found
      obtain ⟨start, hlocal⟩ := localEffect_eq hassignment scope d column
      obtain ⟨v, hvalue, rfl⟩ := map_eq_ok_iff.1 (hlocal.symm.trans h)
      obtain ⟨before, after, rfl, hfirst, hname, rfl, rfl⟩ :=
        assignment?_eq_some_iff.1 hassignment
      exact ⟨before, after, v, rfl, hfirst, hname, mapError_eq_ok_iff.1 hvalue, rfl⟩
  · rintro ⟨name, source, v, rfl, hfirst, hname, hvalue, rfl⟩
    obtain ⟨start, hlocal⟩ := localEffect_eq (assignment?_intro hfirst hname) scope d column
    rw [hlocal, hvalue]
    rfl

/-- A definition is a name, and after a blank the expression if there is one. -/
theorem defineEffect_eq_ok_iff :
    defineEffect scope .define argument column = .ok e ↔
      (isName (Text.trim argument) = true ∧
        e = .bindGlobal (Text.lower (Text.trim argument)) (.bool true)) ∨
      ∃ name c source v, Text.trim argument = name ++ c :: source ∧ Text.isBlank c = true ∧
        isName name = true ∧ lineValue scope (Text.trimStart source) = .ok v ∧
          e = .bindGlobal (Text.lower name) v := by
  unfold defineEffect
  constructor
  · intro h
    cases hcut : Text.cutAt? Text.isBlank (Text.trim argument) with
    | none =>
      simp only [hcut, atColumn, bind_eq_ok_iff, mapError_eq_ok_iff] at h
      obtain ⟨name, hname, h⟩ := h
      obtain ⟨hvalid, rfl⟩ := variableArgument_eq_ok_iff.1 hname
      rw [Text.trim_trim] at hvalid h
      exact .inl ⟨hvalid, (Except.ok.inj h).symm⟩
    | some cut =>
      obtain ⟨first, c, rest⟩ := cut
      obtain ⟨hwhole, hc, hfirst⟩ := Text.eq_append_of_cutAt? hcut
      simp only [hcut, atColumn, bind_eq_ok_iff, mapError_eq_ok_iff] at h
      obtain ⟨name, hname, h⟩ := h
      obtain ⟨hvalid, rfl⟩ := variableArgument_eq_ok_iff.1 hname
      rw [Text.trim_of_not_blank hfirst] at hvalid h
      split at h
      -- a trimmed text has something after every blank in it
      · next hempty =>
        have hrest := List.dropWhile_eq_nil_iff.1 (List.isEmpty_iff.1 hempty)
        exact absurd hwhole (Text.append_blanks_ne_trim (List.cons_ne_nil c rest)
          (List.forall_mem_cons.2 ⟨hc, hrest⟩) first)
      · obtain ⟨v, hvalue, h⟩ := bind_eq_ok_iff.1 h
        exact .inr ⟨first, c, rest, v, hwhole, hc, hvalid, mapError_eq_ok_iff.1 hvalue,
          (Except.ok.inj h).symm⟩
  · rintro (⟨hname, rfl⟩ | ⟨name, c, source, v, hwhole, hc, hname, hvalue, rfl⟩)
    · have hvariable : Directive.define.variableArgument (Text.trim argument) =
          .ok (Text.lower (Text.trim argument)) := by
        rw [variableArgument_eq_ok_iff, Text.trim_trim]
        exact ⟨hname, rfl⟩
      dsimp only
      rw [Text.cutAt?_eq_none_iff.2 (isBlank_of_isName hname)]
      dsimp only
      rw [hvariable]
      rfl
    · have htrim := Text.trim_of_not_blank (isBlank_of_isName hname)
      have hvariable : Directive.define.variableArgument name = .ok (Text.lower name) := by
        rw [variableArgument_eq_ok_iff, htrim]
        exact ⟨hname, rfl⟩
      have hsource : (Text.trimStart source).isEmpty = false := by
        refine Bool.eq_false_iff.2 fun hempty => ?_
        rw [List.isEmpty_iff.1 hempty] at hvalue
        cases hvalue
      dsimp only
      rw [hwhole, Text.cutAt?_append (isBlank_of_isName hname), Text.cutAt?_cons hc]
      dsimp only [Option.map_some]
      rw [List.append_nil, hvariable]
      show (if (Text.trimStart source).isEmpty then _ else _) = _
      rw [hsource, if_neg Bool.false_ne_true, hvalue]
      rfl

theorem undefineEffect_eq_ok_iff :
    directiveEffect env chain scope .undefine argument column = .ok e ↔
      isName (Text.trim argument) = true ∧ e = .unbind (Text.lower (Text.trim argument)) := by
  simp only [directiveEffect, atColumn, mapError_eq_ok_iff, bind_eq_ok_iff]
  constructor
  · rintro ⟨name, hname, h⟩
    obtain ⟨hvalid, rfl⟩ := variableArgument_eq_ok_iff.1 hname
    exact ⟨hvalid, (Except.ok.inj h).symm⟩
  · rintro ⟨hvalid, rfl⟩
    exact ⟨_, variableArgument_eq_ok_iff.2 ⟨hvalid, rfl⟩, rfl⟩

/-- Of the directives, these three change variables. -/
theorem directiveEffect_isWrite {d : Directive}
    (h : directiveEffect env chain scope d argument column = .ok e) (he : e.isWrite = true) :
    d = .localVariable ∨ d = .define ∨ d = .undefine := by
  unfold directiveEffect at h
  split at h
  next => exact .inl rfl
  next => exact .inr (.inl rfl)
  next => exact .inr (.inr rfl)
  next =>
    obtain ⟨on, -, h⟩ := bind_eq_ok_iff.1 h
    obtain rfl := Except.ok.inj h
    cases he
  next =>
    obtain ⟨on, -, h⟩ := bind_eq_ok_iff.1 h
    obtain rfl := Except.ok.inj h
    cases he
  next =>
    cases hextension : env.extension with
    | none =>
      rw [hextension] at h
      obtain rfl := Except.ok.inj h
      cases he
    | some x =>
      simp only [hextension, actionEffect, atColumn, mapError_eq_ok_iff, bind_eq_ok_iff] at h
      obtain ⟨es, -, vs, -, h⟩ := h
      obtain rfl := Except.ok.inj h
      cases he
  next =>
    obtain ⟨t, -, rfl⟩ := map_eq_ok_iff.1 h
    cases he
  next =>
    obtain ⟨t, -, rfl⟩ := map_eq_ok_iff.1 h
    cases he
  next => exact (errorEffect_ne_ok h).elim
  next =>
    simp only [atColumn, mapError_eq_ok_iff, bind_eq_ok_iff] at h
    obtain ⟨_, -, h⟩ := h
    obtain rfl := Except.ok.inj h
    cases he
  next =>
    simp only [atColumn, mapError_eq_ok_iff, bind_eq_ok_iff] at h
    obtain ⟨holds, -, h⟩ := h
    obtain rfl := Except.ok.inj h
    cases holds <;> cases he
  next =>
    obtain ⟨file, t, rfl⟩ := includeEffect_eq_enter (mapError_eq_ok_iff.1 h)
    cases he
  next =>
    obtain rfl := Except.ok.inj h
    cases he

/-- A directive of the line pass that is no conditional is carried out where text is kept. -/
theorem lineEffect_directive {d : Directive}
    (hkind : lineKind env.marker content = .directive d argument) (hp : d.pass = .line)
    (hd : d.isConditional = false) (hactive : m.state.blocks.isActive = true) :
    lineEffect env chain here m content =
      directiveEffect env chain (m.scope here) d argument (argumentColumn content argument) := by
  unfold lineEffect
  rw [hkind]
  dsimp only
  rw [hp, if_neg (by decide), hd, if_neg Bool.false_ne_true, if_pos hactive]

/-- The changes of the lines are what they ask for. -/
theorem WritesLine.lineEffect {w : Write} (h : WritesLine env.marker (m.scope here) content w)
    (hactive : m.state.blocks.isActive = true) :
    lineEffect env chain here m content = .ok w.effect := by
  cases h with
  | assign kind first named value =>
    rw [lineEffect_directive kind rfl rfl hactive]
    exact localEffect_eq_ok_iff.2 ⟨_, _, _, rfl, first, named, value, rfl⟩
  | define kind split blank named value =>
    rw [lineEffect_directive kind rfl rfl hactive]
    exact defineEffect_eq_ok_iff.2 (.inr ⟨_, _, _, _, split, blank, named, value, rfl⟩)
  | defineTrue kind named =>
    rw [lineEffect_directive kind rfl rfl hactive]
    exact defineEffect_eq_ok_iff.2 (.inl ⟨named, rfl⟩)
  | undefine kind named =>
    rw [lineEffect_directive kind rfl rfl hactive]
    exact undefineEffect_eq_ok_iff.2 ⟨named, rfl⟩

/-- Whatever changes variables is one of the changes. -/
theorem exists_writesLine (h : lineEffect env chain here m content = .ok e)
    (he : e.isWrite = true) :
    m.state.blocks.isActive = true ∧
      ∃ w, WritesLine env.marker (m.scope here) content w ∧ e = w.effect := by
  unfold lineEffect at h
  cases hkind : lineKind env.marker content with
  | plain =>
    rw [hkind] at h
    dsimp only at h
    split at h
    next =>
      obtain ⟨line, -, rfl⟩ := map_eq_ok_iff.1 h
      nomatch he
    next =>
      obtain rfl := Except.ok.inj h
      nomatch he
  | unknown rest => rw [hkind] at h; nomatch h
  | directive d argument =>
    rw [hkind] at h
    dsimp only at h
    split at h
    next =>
      obtain rfl := Except.ok.inj h
      nomatch he
    next =>
      split at h
      next =>
        obtain ⟨blocks, -, rfl⟩ := map_eq_ok_iff.1 h
        nomatch he
      next =>
        split at h
        next hactive =>
          refine ⟨hactive, ?_⟩
          rcases directiveEffect_isWrite h he with rfl | rfl | rfl
          · obtain ⟨name, source, v, rfl, hfirst, hname, hvalue, rfl⟩ := localEffect_eq_ok_iff.1 h
            exact ⟨_, .assign hkind hfirst hname hvalue, rfl⟩
          · obtain ⟨hname, rfl⟩ | ⟨name, c, source, v, hwhole, hc, hname, hvalue, rfl⟩ :=
              defineEffect_eq_ok_iff.1 h
            · exact ⟨_, .defineTrue hkind hname, rfl⟩
            · exact ⟨_, .define hkind hwhole hc hname hvalue, rfl⟩
          · obtain ⟨hname, rfl⟩ := undefineEffect_eq_ok_iff.1 h
            exact ⟨_, .undefine hkind hname, rfl⟩
        next =>
          obtain rfl := Except.ok.inj h
          nomatch he

end Lines

/-! ## What a line does to the tables -/

/-- The variables of the file and those of the run. -/
def Machine.tables (m : Machine) : Table × Table := (m.state.locals, m.globals)

theorem tables_perform_effect (m : Machine) (here : Position) (w : Write) :
    (m.perform here w.effect).tables = w.apply m.tables := by
  cases w <;> rfl

theorem tables_perform (m : Machine) (here : Position) {e : Effect} (he : e.isWrite = false) :
    (m.perform here e).tables = m.tables := by
  cases e with
  | emit line =>
    show (FileState.locals (m.state.emit line), m.globals) = m.tables
    unfold FileState.emit
    cases m.state.target <;> rfl
  | bindLocal name v => nomatch he
  | bindGlobal name v => nomatch he
  | unbind name => nomatch he
  | _ => rfl

/-- A line that goes on has changed the variables as what it asks for does. -/
theorem tables_processLine {enter : List Position → Path → Text → Machine → Processed}
    {env : Environment} {chain : List Position} {here : Position} {content : Text}
    {m after : Machine}
    (own : ∀ target u, lineEffect env chain here m content ≠ .ok (.enter target u))
    (h : processLine enter env chain here content m = (.ok .next, after)) :
    ∃ e, lineEffect env chain here m content = .ok e ∧
      after.tables = (m.perform here e).tables := by
  unfold processLine at h
  split at h
  next => nomatch h
  next => nomatch h
  next target u heffect => exact absurd heffect (own target u)
  next x arguments column heffect =>
    refine ⟨_, heffect, ?_⟩
    dsimp only at h
    split at h
    next =>
      obtain ⟨-, rfl⟩ := Prod.mk.inj h
      rfl
    next => nomatch h
  next e _ _ _ heffect =>
    obtain ⟨-, rfl⟩ := Prod.mk.inj h
    exact ⟨e, heffect, rfl⟩

theorem WritesLine.lower_name {marker : Text} {scope : Scope} {content : Text} {w : Write}
    (h : WritesLine marker scope content w) :
    Text.lower (Text.lower w.name) = Text.lower w.name := by
  cases h with
  | assign _ _ named => exact (lower_of_isName named).2
  | define _ _ _ named => exact (lower_of_isName named).2
  | defineTrue _ named => exact (lower_of_isName named).2
  | undefine _ named => exact (lower_of_isName named).2

end SourcePreprocessor
