import SourcePreprocessor.Proofs.Expr.Names
import SourcePreprocessor.Proofs.Pass.Change

/-!
# Names that are accepted can be referred to

Directives and definitions check the names of variables with `isName`, and expressions are cut into
names by the scanner. The two agree on what a name is (`isName_iff_tokenize`), but for the two words
that expressions read as booleans.

Who takes a text as a name is said through what succeeds (`Accepts`): a directive that changes
variables, a conditional on a name, or a definition.

> `Accepts.named`: whoever takes a text as a name has checked it, and means the variable of this
> name in lower case;
> `accepted_names_refer`: so an expression of this text alone refers to the same variable.
-/

namespace SourcePreprocessor

/-- The text before the first equals sign, without the blanks around it. -/
def beforeEquals (t : Text) : Text := Text.trim (t.takeWhile (· ≠ '='))

/-- The text before the first blank, once there are no blanks around. -/
def firstWord (t : Text) : Text := (Text.trim t).takeWhile (!Text.isBlank ·)

/-- A directive or a definition takes the first text as the name of a variable, and the variable
that it means has the second as its name. -/
inductive Accepts : (written name : Text) → Prop
  /-- An assignment to a variable of the file. -/
  | assign {env : Environment} {chain : List Position} {scope : Scope} {argument name : Text}
    {column : Nat} {v : Value}
    (effect : directiveEffect env chain scope .localVariable argument column =
      .ok (.bindLocal name v)) : Accepts (beforeEquals argument) name
  /-- A definition of a variable of the run, on a line of the line pass. -/
  | define {env : Environment} {chain : List Position} {scope : Scope} {argument name : Text}
    {column : Nat} {v : Value}
    (effect : directiveEffect env chain scope .define argument column =
      .ok (.bindGlobal name v)) : Accepts (firstWord argument) name
  | undefine {env : Environment} {chain : List Position} {scope : Scope} {argument name : Text}
    {column : Nat}
    (effect : directiveEffect env chain scope .undefine argument column = .ok (.unbind name)) :
    Accepts (Text.trim argument) name
  /-- A conditional on whether a variable is defined. -/
  | conditional {scope : Scope} {d : Directive} {argument : Text} {holds : Bool}
    (kind : d = .ifDefined ∨ d = .ifUndefined)
    (condition : conditionHolds scope d argument = .ok holds) :
    Accepts (Text.trim argument) (Text.lower (Text.trim argument))
  /-- A definition of a variable of the run, on a line of the global pass. -/
  | global {s after : Scan} {here : Position} {argument : Text} {column : Nat}
    (scanned : scanDirective s here .global argument column = .ok after)
    (active : s.blocks.isActive = true) :
    Accepts (beforeEquals argument) (Text.lower (beforeEquals argument))
  /-- A definition on the command line or on a line of a configuration file. -/
  | definition {ds after : Definitions} {t : Text} {here : Position}
    (added : ds.add t here = .ok after) : Accepts (beforeEquals t) (Text.lower (beforeEquals t))

theorem beforeEquals_append {before : Text} (hfirst : '=' ∉ before) (after : Text) :
    beforeEquals (before ++ '=' :: after) = Text.trim before := by
  have hbefore : ∀ c ∈ before, decide (c ≠ '=') = true := fun c hc =>
    decide_eq_true fun h => hfirst (h ▸ hc)
  unfold beforeEquals
  rw [List.takeWhile_append_of_pos hbefore, List.takeWhile_cons_of_neg (by decide), List.append_nil]

/-- The name of an assignment stands before its first equals sign. -/
theorem beforeEquals_of_assignment? {t name source : Text}
    (h : assignment? t = some (name, source)) :
    beforeEquals t = name ∧ isName name = true := by
  obtain ⟨before, after, rfl, hfirst, hname, rfl, -⟩ := assignment?_eq_some_iff.1 h
  exact ⟨beforeEquals_append hfirst after, hname⟩

theorem firstWord_of_isName {argument name rest : Text} (hname : isName name = true)
    (hrest : rest = [] ∨ ∃ c source, rest = c :: source ∧ Text.isBlank c = true)
    (h : Text.trim argument = name ++ rest) : firstWord argument = name := by
  have hplain : ∀ c ∈ name, (!Text.isBlank c) = true := fun c hc => by
    rw [isBlank_of_isName hname c hc]
    rfl
  unfold firstWord
  rw [h, List.takeWhile_append_of_pos hplain]
  obtain rfl | ⟨c, source, rfl, hc⟩ := hrest
  · exact List.append_nil name
  · rw [List.takeWhile_cons_of_neg (by rw [hc]; decide), List.append_nil]

/-- A text that is taken as a name is one, and it means the variable of this name in lower case. -/
theorem Accepts.named {written name : Text} (h : Accepts written name) :
    isName written = true ∧ name = Text.lower written := by
  cases h with
  | @assign env chain scope argument name column v effect =>
    obtain ⟨before, source, u, rfl, hfirst, hname, -, heffect⟩ := localEffect_eq_ok_iff.1 effect
    obtain ⟨rfl, -⟩ := Effect.bindLocal.inj heffect
    rw [beforeEquals_append hfirst]
    exact ⟨hname, rfl⟩
  | @define env chain scope argument name column v effect =>
    obtain ⟨hname, heffect⟩ | ⟨word, c, source, u, hsplit, hblank, hname, -, heffect⟩ :=
      defineEffect_eq_ok_iff.1 effect
    · obtain ⟨rfl, -⟩ := Effect.bindGlobal.inj heffect
      rw [firstWord_of_isName hname (.inl rfl) (List.append_nil _).symm]
      exact ⟨hname, rfl⟩
    · obtain ⟨rfl, -⟩ := Effect.bindGlobal.inj heffect
      rw [firstWord_of_isName hname (.inr ⟨c, source, rfl, hblank⟩) hsplit]
      exact ⟨hname, rfl⟩
  | undefine effect =>
    obtain ⟨hname, heffect⟩ := undefineEffect_eq_ok_iff.1 effect
    obtain rfl := Effect.unbind.inj heffect
    exact ⟨hname, rfl⟩
  | conditional kind condition =>
    rcases kind with rfl | rfl
    all_goals
      obtain ⟨name, hargument, -⟩ := bind_eq_ok_iff.1 condition
      exact ⟨(variableArgument_eq_ok_iff.1 (mapError_eq_ok_iff.1 hargument)).1, rfl⟩
  | @global s after here argument column scanned active =>
    have hdefine : s.define here .global argument column = .ok after := by
      rw [← scanned]
      exact (if_pos active).symm
    cases hassignment : assignment? argument with
    | none =>
      rw [Scan.define_none hassignment] at hdefine
      cases hdefine
    | some found =>
      obtain ⟨hbefore, hname⟩ := beforeEquals_of_assignment? hassignment
      rw [hbefore]
      exact ⟨hname, rfl⟩
  | @definition ds after t here added =>
    cases hassignment : assignment? t with
    | none =>
      rw [Definitions.add, evaluateDefinition_none hassignment] at added
      cases added
    | some found =>
      obtain ⟨hbefore, hname⟩ := beforeEquals_of_assignment? hassignment
      rw [hbefore]
      exact ⟨hname, rfl⟩

/-- **The check of names and the scanner agree.** A text passes the check of names exactly when it
is scanned as this one name and nothing else, or is one of the two words that are scanned as
booleans. So whatever a directive or a definition takes as the name of a variable, these two words
apart, is an expression by itself, and refers to the same variable. -/
theorem accepted_names_refer :
    (∀ t, isName t = true ↔
      tokenize t = .ok [⟨.name t, 1⟩] ∨ t = "true".toList ∨ t = "false".toList) ∧
    (∀ b, isName (Value.boolText b) = true ∧
      tokenize (Value.boolText b) = .ok [⟨.bool b, 1⟩]) ∧
    ∀ written name, Accepts written name → written ≠ "true".toList → written ≠ "false".toList →
      parse written = .ok ⟨.reference name 1, written⟩ := by
  refine ⟨isName_iff_tokenize, fun b => ?_, fun written name haccepts htrue hfalse => ?_⟩
  · have hname : isName (Value.boolText b) = true := by cases b <;> decide
    refine ⟨hname, ?_⟩
    rw [tokenize_isName hname]
    cases b <;> rfl
  · obtain ⟨hname, rfl⟩ := haccepts.named
    exact parse_isWord ⟨hname, htrue, hfalse⟩

/-- A name with a dot and capital letters, given a value on the command line, is one reference in an
expression. -/
theorem accepted_names_refer_dotted :
    Accepts "$Build.No_7".toList "$build.no_7".toList ∧
      parse "$Build.No_7".toList =
        .ok ⟨.reference "$build.no_7".toList 1, "$Build.No_7".toList⟩ := by
  have hsome : (Definitions.add ⟨.empty, []⟩ " $Build.No_7 = 2 * 3 == 6".toList
      ⟨⟨"<command line>".toList⟩, 0⟩).toOption.isSome = true := by decide +kernel
  have hname : beforeEquals " $Build.No_7 = 2 * 3 == 6".toList = "$Build.No_7".toList := by
    decide +kernel
  have hlower : Text.lower "$Build.No_7".toList = "$build.no_7".toList := by decide +kernel
  obtain ⟨after, hafter⟩ := Option.isSome_iff_exists.1 hsome
  have haccepts := Accepts.definition (eq_ok_of_toOption hafter)
  rw [hname, hlower] at haccepts
  exact ⟨haccepts, accepted_names_refer.2.2 _ _ haccepts (by decide +kernel) (by decide +kernel)⟩

end SourcePreprocessor
