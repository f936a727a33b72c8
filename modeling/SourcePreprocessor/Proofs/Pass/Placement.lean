import SourcePreprocessor.Proofs.Pass.IncludeChain
import SourcePreprocessor.Proofs.Pass.Relocation

/-!
# Where a line stands

A line stands at a number in a file that was included by the lines of a chain. All of this can show
in what the line leaves behind: a block remembers the line that opened it, an action its position,
and the log names both. *Unplaced*, a machine has nothing of this left, and machines that are the
same unplaced have the same variables, the same output and the same arguments of actions.

What can a line read of its place? Four special variables tell it, and a text that mentions none of
them is *placeless*. Then a line has nothing to go by but the machine, unless it includes a file:

> `lineEffect_unplaced`: a placeless line that includes nothing asks for the same at any two places,
> from machines that are the same unplaced;
> `processLine_unplaced`: so it does the same, if the extension does not look at positions either.
-/

namespace SourcePreprocessor

/-! ## Blocks -/

/-- The block without the line that opened it. -/
def Frame.unplaced (f : Frame) : Frame := { f with openedAt := 0 }

namespace BlockStack

/-- The open blocks without the lines that opened them. -/
def unplaced (b : BlockStack) : BlockStack := ⟨b.frames.map Frame.unplaced⟩

@[simp] theorem isActive_unplaced (b : BlockStack) : b.unplaced.isActive = b.isActive := by
  obtain ⟨_ | ⟨f, fs⟩⟩ := b
  · rfl
  · rfl

@[simp] theorem depth_unplaced (b : BlockStack) : b.unplaced.depth = b.depth := List.length_map _

theorem enter_unplaced (b : BlockStack) (condition : Option Bool) (d : Directive) (line : Nat) :
    (b.enter condition d line).unplaced = b.unplaced.enter condition d 0 := by
  unfold enter
  rw [isActive_unplaced]
  rfl

theorem branching_unplaced (b : BlockStack) (d : Directive) :
    b.unplaced.branching d =
      (b.branching d).map fun (f, others) => (f.unplaced, others.map Frame.unplaced) := by
  obtain ⟨_ | ⟨f, fs⟩⟩ := b
  · rfl
  · show (if f.elseSeen = true then _ else _) = Except.map _ (if f.elseSeen = true then _ else _)
    by_cases h : f.elseSeen = true
    · rw [if_pos h, if_pos h]
      rfl
    · rw [if_neg h, if_neg h]
      rfl

theorem needsCondition_unplaced (b : BlockStack) (d : Directive) :
    b.unplaced.needsCondition d = b.needsCondition d := by
  unfold needsCondition
  rw [branching_unplaced]
  cases b.branching d <;> rfl

theorem elseIf_unplaced (b : BlockStack) (condition : Option Bool) (d : Directive) :
    (b.elseIf condition d).map unplaced = b.unplaced.elseIf condition d := by
  unfold elseIf
  rw [branching_unplaced]
  cases b.branching d <;> rfl

theorem otherwise_unplaced (b : BlockStack) (d : Directive) :
    (b.otherwise d).map unplaced = b.unplaced.otherwise d := by
  unfold otherwise
  rw [branching_unplaced]
  cases b.branching d <;> rfl

theorem close_unplaced (b : BlockStack) (d : Directive) :
    (b.close d).map unplaced = b.unplaced.close d := by
  obtain ⟨_ | ⟨f, fs⟩⟩ := b
  · rfl
  · rfl

theorem unclosed?_unplaced (b : BlockStack) (depth : Nat) :
    b.unplaced.unclosed? depth = (b.unclosed? depth).map Frame.unplaced := by
  unfold unclosed?
  rw [depth_unplaced]
  by_cases h : depth < b.depth
  · rw [if_pos h, if_pos h]
    exact List.head?_map
  · rw [if_neg h, if_neg h]
    rfl

end BlockStack

/-- The blocks after a conditional directive, without the lines that opened them. -/
theorem conditionalBlocks_unplaced {s s' : Scope} {b b' : BlockStack} {d : Directive}
    {argument : Text} (h : Context.AgreeOn argument s'.get? s.get?)
    (hb : b'.unplaced = b.unplaced) :
    (conditionalBlocks s' b' d argument).map BlockStack.unplaced =
      (conditionalBlocks s b d argument).map BlockStack.unplaced := by
  have hactive : b'.isActive = b.isActive := by
    rw [← b'.isActive_unplaced, hb, b.isActive_unplaced]
  unfold conditionalBlocks
  split
  · have hneeds : b'.needsCondition .elseIf = b.needsCondition .elseIf := by
      rw [← b'.needsCondition_unplaced, hb, b.needsCondition_unplaced]
    simp only [map_bind, map_mapError, BlockStack.elseIf_unplaced, conditionIf_congr h, hneeds, hb]
  · simp only [map_bind, map_mapError, BlockStack.otherwise_unplaced, hb]
  · simp only [map_bind, map_mapError, BlockStack.close_unplaced, hb]
  · simp only [map_bind, conditionIf_congr h, hactive]
    refine bind_congr_of_ok fun condition _ => ?_
    show Except.ok (BlockStack.unplaced _) = Except.ok (BlockStack.unplaced _)
    rw [BlockStack.enter_unplaced, BlockStack.enter_unplaced, hb]

/-! ## Machines -/

/-- A position that tells nothing. -/
def nowhere : Position := ⟨⟨[]⟩, 0⟩

/-- The action without its position. -/
def Action.unplaced (a : Action) : Action := { a with position := nowhere }

/-- The extension answers without looking at the positions of actions. -/
def Extension.IgnoresPositions (x : Extension) : Prop :=
  ∀ earlier a, x.accepts (earlier.map Action.unplaced) a.unplaced = x.accepts earlier a

/-- What a line asks for, without the lines that opened blocks. -/
def Effect.unplaced : Effect → Effect
  | .reblock blocks => .reblock blocks.unplaced
  | e => e

/-- Only other blocks can differ in where lines stand. -/
theorem Effect.eq_of_unplaced {e e' : Effect} (h : e'.unplaced = e.unplaced) :
    e' = e ∨ ∃ blocks blocks', e = .reblock blocks ∧ e' = .reblock blocks' := by
  unfold Effect.unplaced at h
  split at h
  · next blocks' =>
    split at h
    · next blocks => exact .inr ⟨blocks, blocks', rfl, rfl⟩
    · exact .inr ⟨_, blocks', h.symm, rfl⟩
  · next hother =>
    split at h
    · exact absurd h (hother _)
    · exact .inl h

namespace Machine

/-- The machine without what tells where lines stand, and without the log. -/
def unplaced (m : Machine) : Machine where
  state := { m.state with blocks := m.state.blocks.unplaced }
  globals := m.globals
  actions := m.actions.map Action.unplaced
  log := []

theorem perform_unplaced (m : Machine) (here : Position) (e : Effect) :
    (m.perform here e).unplaced = { m.unplaced.perform nowhere e.unplaced with log := [] } := by
  cases e with
  | emit line =>
    unfold perform unplaced FileState.emit
    cases m.state.target <;> rfl
  | _ => rfl

theorem perform_congr {m m' : Machine} (hm : m'.unplaced = m.unplaced) {e e' : Effect}
    (he : e'.unplaced = e.unplaced) (here here' : Position) :
    (m'.perform here' e').unplaced = (m.perform here e).unplaced := by
  rw [perform_unplaced, perform_unplaced, hm, he]

theorem accepts_congr {m m' : Machine} (hm : m'.unplaced = m.unplaced) {x : Extension}
    (hx : x.IgnoresPositions) (here here' : Position) (arguments : List Value) :
    x.accepts m'.actions ⟨here', arguments⟩ = x.accepts m.actions ⟨here, arguments⟩ := by
  have hactions : m'.actions.map Action.unplaced = m.actions.map Action.unplaced :=
    congrArg (·.actions) hm
  rw [← hx m'.actions, hactions, ← hx m.actions]
  rfl

theorem unplaced_act (m : Machine) (here : Position) (arguments : List Value) :
    unplaced { m with actions := m.actions ++ [⟨here, arguments⟩] } =
      { m.unplaced with actions := m.unplaced.actions ++ [⟨nowhere, arguments⟩] } := by
  unfold unplaced
  rw [List.map_append]
  rfl

theorem blocks_congr {m m' : Machine} (h : m'.unplaced = m.unplaced) :
    m'.state.blocks.unplaced = m.state.blocks.unplaced := congrArg (·.state.blocks) h

theorem isActive_congr {m m' : Machine} (h : m'.unplaced = m.unplaced) :
    m'.state.blocks.isActive = m.state.blocks.isActive := by
  rw [← BlockStack.isActive_unplaced, blocks_congr h, BlockStack.isActive_unplaced]

end Machine

/-- The same lines were written and the same variables are defined, further lines go to the same
section, and the same values were handed to the extension. -/
structure SameOutcome (m m' : Machine) : Prop where
  opening : m'.state.opening = m.state.opening
  main : m'.state.main = m.state.main
  closing : m'.state.closing = m.state.closing
  target : m'.state.target = m.state.target
  locals : m'.state.locals = m.state.locals
  globals : m'.globals = m.globals
  arguments : m'.actions.map Action.arguments = m.actions.map Action.arguments

theorem sameOutcome_of_unplaced {m m' : Machine} (h : m'.unplaced = m.unplaced) :
    SameOutcome m m' where
  opening := congrArg (·.state.opening) h
  main := congrArg (·.state.main) h
  closing := congrArg (·.state.closing) h
  target := congrArg (·.state.target) h
  locals := congrArg (·.state.locals) h
  globals := congrArg (·.globals) h
  arguments := by
    have hactions : (m'.actions.map Action.unplaced).map Action.arguments =
        (m.actions.map Action.unplaced).map Action.arguments :=
      congrArg (·.actions.map Action.arguments) h
    rw [List.map_map, List.map_map] at hactions
    exact hactions

/-! ## Lines -/

/-- The text mentions none of the variables that tell where it stands. -/
structure Placeless (t : Text) : Prop where
  line : ¬ Text.Mentions "__line__".toList t
  fileName : ¬ Text.Mentions "__filename__".toList t
  folder : ¬ Text.Mentions "__filefolder__".toList t
  path : ¬ Text.Mentions "__file__".toList t

theorem Placeless.mono {t u : Text} (h : Placeless t) (hu : u <:+: t) : Placeless u :=
  ⟨fun hline => h.line (hline.mono hu), fun hname => h.fileName (hname.mono hu),
    fun hfolder => h.folder (hfolder.mono hu), fun hpath => h.path (hpath.mono hu)⟩

/-- So an expression of the text sees the same variables at any two places. -/
theorem Placeless.agreeOn {t : Text} (h : Placeless t) {m m' : Machine}
    (hm : m'.unplaced = m.unplaced) (here here' : Position) :
    Context.AgreeOn t (m'.scope here').get? (m.scope here).get? := by
  intro name hname
  have hline : name ≠ "__line__".toList := fun heq => h.line (heq ▸ hname)
  have hfileName : name ≠ "__filename__".toList := fun heq => h.fileName (heq ▸ hname)
  have hfolder : name ≠ "__filefolder__".toList := fun heq => h.folder (heq ▸ hname)
  have hpath : name ≠ "__file__".toList := fun heq => h.path (heq ▸ hname)
  have hspecial (s : Scope) : s.special? name = none := by
    unfold Scope.special?
    rw [if_neg hline, if_neg hfileName, if_neg hfolder, if_neg hpath]
  have hlocals : m'.state.locals = m.state.locals := congrArg (·.state.locals) hm
  have hglobals : m'.globals = m.globals := congrArg (·.globals) hm
  unfold Scope.get? Machine.scope
  rw [hspecial, hspecial, hlocals, hglobals]

section Lines

variable {env : Environment} {content : Text} {m m' : Machine}

theorem reblock_unplaced (column : Nat) (x : Except Cause BlockStack) :
    ((atColumn column x).map Effect.reblock).map Effect.unplaced =
      (atColumn column (x.map BlockStack.unplaced)).map Effect.reblock := by
  cases x <;> rfl

/-- A placeless line that includes nothing asks for the same at any two places. -/
theorem lineEffect_unplaced (hi : (lineKind env.marker content).isInclude = false)
    (h : Placeless content) (hm : m'.unplaced = m.unplaced) (chain chain' : List Position)
    (here here' : Position) :
    (lineEffect env chain' here' m' content).map Effect.unplaced =
      (lineEffect env chain here m content).map Effect.unplaced := by
  have hagree := h.agreeOn hm here here'
  unfold lineEffect
  rw [Machine.isActive_congr hm]
  cases hkind : lineKind env.marker content with
  | plain =>
    dsimp only
    rw [renderLine_congr hagree]
  | unknown rest => rfl
  | directive d argument =>
    have hargument := hagree.mono (infix_of_lineKind hkind)
    have hd : d ≠ .includeFile := by
      intro heq
      rw [hkind, heq] at hi
      cases hi
    dsimp only
    split
    · rfl
    · split
      · rw [reblock_unplaced, reblock_unplaced, conditionalBlocks_unplaced hargument
          (Machine.blocks_congr hm)]
      · split
        · have hsame : directiveEffect env chain' (m'.scope here') d argument
              (argumentColumn content argument) = directiveEffect env chain (m.scope here) d
              argument (argumentColumn content argument) :=
            directiveEffect_congr hd hargument env.files chain chain' _
          rw [hsame]
        · rfl

/-- So does a placeless line that enters no file, whether it includes nothing or is left out. -/
theorem lineEffect_elsewhere (h : Placeless content) (hm : m'.unplaced = m.unplaced)
    {chain : List Position} {here : Position} {e : Effect}
    (he : lineEffect env chain here m content = .ok e) (hown : ∀ file t, e ≠ .enter file t)
    (chain' : List Position) (here' : Position) :
    ∃ e', lineEffect env chain' here' m' content = .ok e' ∧ e'.unplaced = e.unplaced := by
  by_cases hi : (lineKind env.marker content).isInclude = true
  · obtain ⟨argument, hkind⟩ := LineKind.eq_of_isInclude hi
    have hinert : (lineKind env.marker content).isInert = true := by
      rw [hkind]
      rfl
    by_cases hactive : m.state.blocks.isActive = true
    · rw [lineEffect_include hkind hactive] at he
      obtain ⟨file, t, henter⟩ := includeEffect_eq_enter (mapError_eq_ok_iff.1 he)
      exact absurd henter (hown file t)
    · rw [lineEffect_inert hinert (Bool.eq_false_iff.2 hactive)] at he
      refine ⟨.nothing, lineEffect_inert hinert ?_, by rw [← Except.ok.inj he]⟩
      rw [Machine.isActive_congr hm, Bool.eq_false_iff]
      exact hactive
  · have hsame := lineEffect_unplaced (by simpa using hi) h hm chain chain' here here'
    rw [he] at hsame
    exact map_eq_ok_iff.1 hsame

/-- A placeless line that enters no file does the same at any two places. -/
theorem processLine_unplaced (hextension : ∀ x, env.extension = some x → x.IgnoresPositions)
    (h : Placeless content) (hm : m'.unplaced = m.unplaced) {chain : List Position}
    {here : Position} {flow : Flow} {after : Machine}
    (hown : ∀ file t, lineEffect env chain here m content ≠ .ok (.enter file t))
    (hr : processLine skipFile env chain here content m = (.ok flow, after))
    (chain' : List Position) (here' : Position) :
    (∀ file t, lineEffect env chain' here' m' content ≠ .ok (.enter file t)) ∧
      ∃ after', processLine skipFile env chain' here' content m' = (.ok flow, after') ∧
        after'.unplaced = after.unplaced := by
  cases he : lineEffect env chain here m content with
  | error fault =>
    unfold processLine at hr
    rw [he] at hr
    cases hr
  | ok e =>
    have hne : ∀ file t, e ≠ .enter file t := fun file t heq => hown file t (heq ▸ he)
    obtain ⟨e', he', hsame⟩ := lineEffect_elsewhere h hm he hne chain' here'
    unfold processLine at hr ⊢
    rw [he] at hr
    rw [he']
    rcases Effect.eq_of_unplaced hsame with rfl | ⟨blocks, blocks', rfl, rfl⟩
    · refine ⟨fun file t heq => hne file t (Except.ok.inj heq), ?_⟩
      cases e' with
      | exit =>
        obtain ⟨hflow, rfl⟩ := Prod.mk.inj hr
        exact ⟨m', congrArg (·, m') hflow, hm⟩
      | enter file t => exact absurd rfl (hne file t)
      | act x arguments column =>
        have hx : x.IgnoresPositions := by
          have hcases := lineEffect_eq_ok he
          simp [Effect.isOwn] at hcases
          exact hextension x hcases
        dsimp only at hr ⊢
        rw [Machine.accepts_congr hm hx here here' arguments]
        split at hr
        · next haccepts =>
          obtain ⟨hflow, rfl⟩ := Prod.mk.inj hr
          rw [if_pos haccepts]
          refine ⟨_, congrArg (·, _) hflow, ?_⟩
          rw [Machine.unplaced_act, Machine.unplaced_act, hm]
        · cases hr
      | _ =>
        obtain ⟨hflow, rfl⟩ := Prod.mk.inj hr
        exact ⟨_, congrArg (·, _) hflow, Machine.perform_congr hm rfl here here'⟩
    · obtain ⟨hflow, rfl⟩ := Prod.mk.inj hr
      refine ⟨fun file t heq => ?_, _, congrArg (·, _) hflow,
        Machine.perform_congr hm hsame here here'⟩
      cases Except.ok.inj heq

end Lines

end SourcePreprocessor
