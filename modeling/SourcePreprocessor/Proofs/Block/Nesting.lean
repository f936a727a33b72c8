import SourcePreprocessor.Proofs.Block.Operation

/-!
# Which sequences of operations are accepted

Whether operations on the open blocks succeed has nothing to do with their conditions. It is decided
by their kinds, and the sequences of kinds that pass, with no block left open at the end, are those
of the grammar

> `S := ε | S open S (elif S)* [else S] close`

as `Nested` states it. For the other sequences the failure is known, too: `check_outcome` says at
which operation it occurs and which one it is, again in terms of the grammar and without a frame.

Accepting what the grammar derives is an induction over derivations (`Nested.applyAll_eq_ok`). The
other direction reads a derivation off a run: after operations that succeed, the frames tell how the
operations fall into an opening operation for each open block and what is derived between them
(`Layout`).
-/

namespace SourcePreprocessor

/-- What an operation does, without its condition, its directive and its line. -/
inductive OperationKind where
  | enter
  | elseIf
  | otherwise
  | close
  deriving DecidableEq, Repr

namespace BlockOperation

def kind : BlockOperation → OperationKind
  | .enter .. => .enter
  | .elseIf .. => .elseIf
  | .otherwise _ => .otherwise
  | .close _ => .close

/-- The directive that asks for the operation. -/
def directive : BlockOperation → Directive
  | .enter _ d _ => d
  | .elseIf _ d => d
  | .otherwise d => d
  | .close d => d

/-- The kinds of operations. -/
def kinds (ops : List BlockOperation) : List OperationKind := ops.map kind

/-- The blocks after operations that all succeed, or the first failure. -/
def applyAll (b : BlockStack) : List BlockOperation → Except StructureError BlockStack
  | [] => .ok b
  | op :: ops => do applyAll (← op.apply b) ops

/-- Whether operations succeed and leave no block open. -/
def check (ops : List BlockOperation) : Except StructureError Unit := do
  (← applyAll .empty ops).ensureDepth 0

end BlockOperation

/-! ## The grammar -/

/-- The kinds in the branches of a block: a first branch, further ones, and the last one if there is
one. -/
def branchKinds (first : List OperationKind) (further : List (List OperationKind))
    (last : Option (List OperationKind)) : List OperationKind :=
  first ++ further.flatMap (OperationKind.elseIf :: ·) ++
    last.elim [] (OperationKind.otherwise :: ·)

/-- The sequences of kinds in which all blocks are opened and closed: `S` of the grammar. -/
inductive Nested : List OperationKind → Prop
  | nil : Nested []
  | block {before first : List OperationKind} {further : List (List OperationKind)}
    {last : Option (List OperationKind)} (outer : Nested before) (inFirst : Nested first)
    (inFurther : ∀ body ∈ further, Nested body) (inLast : ∀ body ∈ last, Nested body) :
    Nested (before ++ .enter :: branchKinds first further last ++ [.close])

/-- The sequences of kinds that can stand between the opening of a block and its end, with a last
branch or without one. -/
def NestedBranches (hadElse : Bool) (kinds : List OperationKind) : Prop :=
  ∃ first further last, Nested first ∧ (∀ body ∈ further, Nested body) ∧
    (∀ body ∈ last, Nested body) ∧ last.isSome = hadElse ∧
    kinds = branchKinds first further last

/-- The innermost block that operations leave open was opened by this directive on this line, with
its last branch begun or not. -/
def LeavesOpen (ops : List BlockOperation) (hadElse : Bool) (d : Directive) (line : Nat) : Prop :=
  ∃ before condition body, ops = before ++ .enter condition d line :: body ∧
    NestedBranches hadElse (BlockOperation.kinds body)

namespace NestedBranches

variable {hadElse : Bool} {kinds body : List OperationKind}

theorem first (h : Nested kinds) : NestedBranches false kinds :=
  ⟨kinds, [], none, h, nofun, nofun, rfl, by simp [branchKinds]⟩

/-- A further branch, so far without a block in it. -/
theorem elseIf (h : NestedBranches false kinds) : NestedBranches false (kinds ++ [.elseIf]) := by
  obtain ⟨first, further, last, hfirst, hfurther, hlast, hnone, rfl⟩ := h
  obtain rfl : last = none := Option.isSome_eq_false_iff.1 hnone |> Option.isNone_iff_eq_none.1
  refine ⟨first, further ++ [[]], none, hfirst, fun body hbody => ?_, nofun, rfl, ?_⟩
  · rcases List.mem_append.1 hbody with hbody | hbody
    · exact hfurther body hbody
    · rw [List.mem_singleton.1 hbody]
      exact .nil
  · simp [branchKinds, List.flatMap_append]

/-- The last branch, so far without a block in it. -/
theorem otherwise (h : NestedBranches false kinds) : NestedBranches true (kinds ++ [.otherwise]) := by
  obtain ⟨first, further, last, hfirst, hfurther, hlast, hnone, rfl⟩ := h
  obtain rfl : last = none := Option.isSome_eq_false_iff.1 hnone |> Option.isNone_iff_eq_none.1
  refine ⟨first, further, some [], hfirst, hfurther, fun body hbody => ?_, rfl, ?_⟩
  · rw [← Option.some.inj hbody]
    exact .nil
  · simp [branchKinds]

/-- A block that is opened and closed belongs to the branch in which that happens. -/
theorem block (h : NestedBranches hadElse kinds) {inner : Bool} (hbody : NestedBranches inner body) :
    NestedBranches hadElse (kinds ++ .enter :: body ++ [.close]) := by
  obtain ⟨f, fs, l, hf, hfs, hl, -, rfl⟩ := hbody
  have hblock : ∀ before, Nested before →
      Nested (before ++ .enter :: branchKinds f fs l ++ [.close]) :=
    fun before hbefore => .block hbefore hf hfs hl
  obtain ⟨first, further, last, hfirst, hfurther, hlast, rfl, rfl⟩ := h
  cases last with
  | some body =>
    refine ⟨first, further, some (body ++ .enter :: branchKinds f fs l ++ [.close]), hfirst,
      hfurther, fun other hother => ?_, rfl, by simp [branchKinds]⟩
    rw [← Option.some.inj hother]
    exact hblock body (hlast body rfl)
  | none =>
    rcases List.eq_nil_or_concat further with rfl | ⟨bodies, body, rfl⟩
    · exact ⟨_, [], none, hblock first hfirst, nofun, nofun, rfl, by simp [branchKinds]⟩
    · refine ⟨first, bodies ++ [body ++ .enter :: branchKinds f fs l ++ [.close]], none, hfirst,
        fun other hother => ?_, nofun, rfl, by simp [branchKinds]⟩
      rcases List.mem_append.1 hother with hother | hother
      · exact hfurther other (by simp [hother])
      · rw [List.mem_singleton.1 hother]
        exact hblock body (hfurther body (by simp))

end NestedBranches

/-- A block that is opened and closed can follow. -/
theorem Nested.concat {before body : List OperationKind} {hadElse : Bool} (h : Nested before)
    (hbody : NestedBranches hadElse body) : Nested (before ++ .enter :: body ++ [.close]) := by
  obtain ⟨first, further, last, hfirst, hfurther, hlast, -, rfl⟩ := hbody
  exact .block h hfirst hfurther hlast

/-! ## What is derived is accepted -/

namespace BlockOperation

theorem applyAll_append (b : BlockStack) (ops others : List BlockOperation) :
    applyAll b (ops ++ others) = applyAll b ops >>= (applyAll · others) := by
  induction ops generalizing b with
  | nil => rfl
  | cons op ops ih =>
    show (op.apply b >>= fun after => applyAll after (ops ++ others)) = _
    simp only [ih]
    exact (bind_assoc (op.apply b) (applyAll · ops) (applyAll · others)).symm

/-- Operations of these kinds succeed, whatever is open, and leave it as it is. -/
def Neutral (body : List OperationKind) : Prop :=
  ∀ ops, kinds ops = body → ∀ b, applyAll b ops = .ok b

/-- The second frame is the first one at another of its branches. -/
structure SameBlock (f g : Frame) : Prop where
  openedBy : g.openedBy = f.openedBy
  openedAt : g.openedAt = f.openedAt

theorem applyAll_further {further : List (List OperationKind)}
    (h : ∀ body ∈ further, Neutral body) :
    ∀ (ops : List BlockOperation), kinds ops = further.flatMap (OperationKind.elseIf :: ·) →
      ∀ (f : Frame) (below : List Frame), f.elseSeen = false →
        ∃ g, applyAll ⟨f :: below⟩ ops = .ok ⟨g :: below⟩ ∧ g.elseSeen = false ∧
          SameBlock f g := by
  induction further with
  | nil =>
    intro ops hops f below hopen
    obtain rfl := List.map_eq_nil_iff.1 hops
    exact ⟨f, rfl, hopen, rfl, rfl⟩
  | cons body further ih =>
    intro ops hops f below hopen
    obtain ⟨own, others, rfl, hown, hothers⟩ := List.map_eq_append_iff.1 hops
    obtain ⟨op, inner, rfl, hop, hinner⟩ := List.map_eq_cons_iff.1 hown
    obtain ⟨condition, d, rfl⟩ : ∃ condition d, op = .elseIf condition d := by
      cases op with
      | elseIf condition d => exact ⟨condition, d, rfl⟩
      | _ => nomatch hop
    have hstep : apply ⟨f :: below⟩ (.elseIf condition d) = .ok ⟨f.atElseIf condition :: below⟩ :=
      apply_eq_ok_iff.2 (.elseIf f below condition d hopen)
    have hbody : applyAll ⟨f :: below⟩ (.elseIf condition d :: inner) =
        .ok ⟨f.atElseIf condition :: below⟩ := by
      rw [applyAll, hstep]
      exact h body List.mem_cons_self inner hinner _
    obtain ⟨g, hrun, hseen, hby, hat⟩ := ih (fun other hother => h other
      (List.mem_cons_of_mem _ hother)) others hothers (f.atElseIf condition) below hopen
    refine ⟨g, ?_, hseen, hby, hat⟩
    rw [applyAll_append, hbody]
    exact hrun

/-- The branches of a block end with the block at its last branch, and nothing else is changed. -/
theorem applyAll_branches {first : List OperationKind} {further : List (List OperationKind)}
    {last : Option (List OperationKind)} (hfirst : Neutral first)
    (hfurther : ∀ body ∈ further, Neutral body) (hlast : ∀ body ∈ last, Neutral body)
    {ops : List BlockOperation} (hops : kinds ops = branchKinds first further last) {f : Frame}
    {below : List Frame} (hopen : f.elseSeen = false) :
    ∃ g, applyAll ⟨f :: below⟩ ops = .ok ⟨g :: below⟩ ∧ g.elseSeen = last.isSome ∧
      SameBlock f g := by
  obtain ⟨started, ending, rfl, hstarted, hending⟩ := List.map_eq_append_iff.1 hops
  obtain ⟨own, others, rfl, hown, hothers⟩ := List.map_eq_append_iff.1 hstarted
  obtain ⟨g, hrun, hseen, hsame⟩ := applyAll_further hfurther others hothers f below hopen
  have hbegun : applyAll ⟨f :: below⟩ (own ++ others) = .ok ⟨g :: below⟩ := by
    rw [applyAll_append, hfirst own hown]
    exact hrun
  cases last with
  | none =>
    obtain rfl := List.map_eq_nil_iff.1 hending
    exact ⟨g, by rwa [List.append_nil], hseen, hsame⟩
  | some body =>
    obtain ⟨op, inner, rfl, hop, hinner⟩ := List.map_eq_cons_iff.1 hending
    obtain ⟨d, rfl⟩ : ∃ d, op = .otherwise d := by
      cases op with
      | otherwise d => exact ⟨d, rfl⟩
      | _ => nomatch hop
    have hstep : apply ⟨g :: below⟩ (.otherwise d) = .ok ⟨g.atOtherwise :: below⟩ :=
      apply_eq_ok_iff.2 (.otherwise g below d hseen)
    refine ⟨g.atOtherwise, ?_, rfl, hsame.openedBy, hsame.openedAt⟩
    rw [applyAll_append, hbegun]
    show applyAll ⟨g :: below⟩ (.otherwise d :: inner) = _
    rw [applyAll, hstep]
    exact hlast body rfl inner hinner _

end BlockOperation

open BlockOperation

/-- Operations whose kinds are derived succeed, and leave open what is open before them. -/
theorem Nested.neutral {body : List OperationKind} (h : Nested body) : Neutral body := by
  induction h with
  | nil =>
    intro ops hops b
    obtain rfl := List.map_eq_nil_iff.1 hops
    rfl
  | block _ _ _ _ outer first further last =>
    intro ops hops b
    obtain ⟨rest, ending, rfl, hrest, hending⟩ := List.map_eq_append_iff.1 hops
    obtain ⟨before, block, rfl, hbefore, hblock⟩ := List.map_eq_append_iff.1 hrest
    obtain ⟨op, branches, rfl, hop, hbranches⟩ := List.map_eq_cons_iff.1 hblock
    obtain ⟨closing, empty, rfl, hclosing, hempty⟩ := List.map_eq_cons_iff.1 hending
    obtain rfl := List.map_eq_nil_iff.1 hempty
    obtain ⟨condition, d, line, rfl⟩ : ∃ condition d line, op = .enter condition d line := by
      cases op with
      | enter condition d line => exact ⟨condition, d, line, rfl⟩
      | _ => nomatch hop
    obtain ⟨d', rfl⟩ : ∃ d', closing = .close d' := by
      cases closing with
      | close d' => exact ⟨d', rfl⟩
      | _ => nomatch hclosing
    have hopen : (openedFrame b.frames condition d line).elseSeen = false := rfl
    obtain ⟨g, hrun, -⟩ := applyAll_branches first further last hbranches hopen
    rw [applyAll_append, applyAll_append, outer before hbefore]
    show (applyAll ⟨openedFrame b.frames condition d line :: b.frames⟩ branches >>= _) = _
    rw [hrun]
    rfl

/-- The branches of a block that was opened: it is still the innermost one, and nothing else is
changed. -/
theorem NestedBranches.applyAll_eq_ok {hadElse : Bool} {ops : List BlockOperation}
    (h : NestedBranches hadElse (kinds ops)) {f : Frame} {below : List Frame}
    (hopen : f.elseSeen = false) :
    ∃ g, applyAll ⟨f :: below⟩ ops = .ok ⟨g :: below⟩ ∧ g.elseSeen = hadElse ∧
      SameBlock f g := by
  obtain ⟨first, further, last, hfirst, hfurther, hlast, rfl, hkinds⟩ := h
  exact applyAll_branches hfirst.neutral (fun body hbody => (hfurther body hbody).neutral)
    (fun body hbody => (hlast body hbody).neutral) hkinds hopen

/-! ## What is accepted is derived -/

/-- How operations that succeeded fall into parts: for each open block the operation that opened it
and its branches so far, and complete blocks before that. -/
inductive Layout : List BlockOperation → List Frame → Prop
  | outside {ops : List BlockOperation} (nested : Nested (kinds ops)) : Layout ops []
  | inside {before body : List BlockOperation} {f : Frame} {below : List Frame}
    (condition : Option Bool) (around : Layout before below)
    (branches : NestedBranches f.elseSeen (kinds body)) :
    Layout (before ++ .enter condition f.openedBy f.openedAt :: body) (f :: below)

theorem kinds_append (ops others : List BlockOperation) :
    kinds (ops ++ others) = kinds ops ++ kinds others := List.map_append

namespace Layout

variable {ops : List BlockOperation} {frames : List Frame}

/-- A block that is opened and closed belongs to what is around it. -/
theorem concat (h : Layout ops frames) {hadElse : Bool} {body : List BlockOperation}
    (hbody : NestedBranches hadElse (kinds body)) (condition : Option Bool) (d d' : Directive)
    (line : Nat) :
    Layout (ops ++ .enter condition d line :: body ++ [.close d']) frames := by
  cases h with
  | outside nested =>
    refine .outside ?_
    rw [kinds_append, kinds_append]
    exact nested.concat hbody
  | @inside before own f below outer around branches =>
    have hown : NestedBranches f.elseSeen
        (kinds (own ++ .enter condition d line :: body ++ [.close d'])) := by
      rw [kinds_append, kinds_append]
      exact branches.block hbody
    have hlayout := Layout.inside outer around hown
    simpa using hlayout

/-- The parts after one more operation. -/
theorem step (h : Layout ops frames) {op : BlockOperation} {after : List Frame}
    (hop : Changes frames op after) : Layout (ops ++ [op]) after := by
  cases hop with
  | enter frames condition d line =>
    have hbranches : NestedBranches (openedFrame frames condition d line).elseSeen (kinds []) :=
      .first .nil
    exact .inside condition h hbranches
  | elseIf f below condition d hopen =>
    cases h with
    | @inside before own _ _ outer around branches =>
      rw [hopen] at branches
      have hbranches : NestedBranches (f.atElseIf condition).elseSeen
          (kinds (own ++ [.elseIf condition d])) := by
        rw [kinds_append, Frame.elseSeen_atElseIf, hopen]
        exact branches.elseIf
      have hlayout := Layout.inside (f := f.atElseIf condition) outer around hbranches
      simpa using hlayout
  | otherwise f below d hopen =>
    cases h with
    | @inside before own _ _ outer around branches =>
      rw [hopen] at branches
      have hbranches : NestedBranches f.atOtherwise.elseSeen (kinds (own ++ [.otherwise d])) := by
        rw [kinds_append]
        exact branches.otherwise
      have hlayout := Layout.inside (f := f.atOtherwise) outer around hbranches
      simpa using hlayout
  | close f below d =>
    cases h with
    | @inside before own _ _ outer around branches =>
      exact around.concat branches outer _ d _

/-- The parts after operations that succeed. -/
theorem run : ∀ (others : List BlockOperation) {ops : List BlockOperation} {b after : BlockStack},
    Layout ops b.frames → applyAll b others = .ok after → Layout (ops ++ others) after.frames := by
  intro others
  induction others with
  | nil =>
    intro ops b after h hrun
    obtain rfl := Except.ok.inj hrun
    rwa [List.append_nil]
  | cons op others ih =>
    intro ops b after h hrun
    obtain ⟨next, hnext, hrest⟩ := bind_eq_ok_iff.1 hrun
    have hlayout := ih (h.step (apply_eq_ok_iff.1 hnext)) hrest
    rwa [List.append_assoc, List.singleton_append] at hlayout

theorem of_applyAll {ops : List BlockOperation} {b : BlockStack} (h : applyAll .empty ops = .ok b) :
    Layout ops b.frames := by
  have hstart : Layout [] BlockStack.empty.frames := .outside .nil
  exact run ops hstart h

end Layout

/-! ## Failures -/

namespace BlockOperation

/-- Whether an operation goes on to another branch. -/
def isBranch (op : BlockOperation) : Bool := op.kind = .elseIf || op.kind = .otherwise

/-- An operation fails when it needs an open block and there is none, or when it goes on to another
branch of a block that had its last one. -/
theorem apply_eq_error_iff {op : BlockOperation} {b : BlockStack} {e : StructureError} :
    op.apply b = .error e ↔
      (op.kind ≠ .enter ∧ b.frames = [] ∧ e = .withoutIf op.directive) ∨
      (op.isBranch = true ∧ e = .afterElse op.directive ∧
        ∃ f below, b.frames = f :: below ∧ f.elseSeen = true) := by
  obtain ⟨frames⟩ := b
  cases frames with
  | nil =>
    have hwithout : op.apply ⟨[]⟩ = .error e ↔ op.kind ≠ .enter ∧ e = .withoutIf op.directive := by
      cases op with
      | enter condition d line => exact ⟨nofun, fun h => absurd rfl h.1⟩
      | _ => exact ⟨fun h => ⟨nofun, (Except.error.inj h).symm⟩, fun h => congrArg _ h.2.symm⟩
    rw [hwithout]
    simp
  | cons f below =>
    have hafter : op.apply ⟨f :: below⟩ = .error e ↔
        op.isBranch = true ∧ e = .afterElse op.directive ∧ f.elseSeen = true := by
      cases op with
      | enter condition d line => exact ⟨nofun, fun h => nomatch h.1⟩
      | close d => exact ⟨nofun, fun h => nomatch h.1⟩
      | elseIf condition d =>
        show BlockStack.elseIf _ _ _ = _ ↔ _
        rw [BlockStack.elseIf_cons]
        cases f.elseSeen <;> simp [isBranch, kind, directive, eq_comm]
      | otherwise d =>
        show BlockStack.otherwise _ _ = _ ↔ _
        rw [BlockStack.otherwise_cons]
        cases f.elseSeen <;> simp [isBranch, kind, directive, eq_comm]
    rw [hafter]
    simp

/-- Operations fail at the first of them that does. -/
theorem applyAll_eq_error_iff {ops : List BlockOperation} :
    ∀ {b : BlockStack} {e : StructureError}, applyAll b ops = .error e ↔
      ∃ earlier op later before, ops = earlier ++ op :: later ∧
        applyAll b earlier = .ok before ∧ op.apply before = .error e := by
  induction ops with
  | nil =>
    intro b e
    refine ⟨nofun, ?_⟩
    rintro ⟨earlier, op, later, -, hops, -⟩
    exact absurd hops.symm (List.append_ne_nil_of_right_ne_nil _ (List.cons_ne_nil _ _))
  | cons op ops ih =>
    intro b e
    cases hop : op.apply b with
    | error e' =>
      have hfails : applyAll b (op :: ops) = .error e' := by
        rw [applyAll, hop]
        rfl
      rw [hfails]
      constructor
      · intro h
        exact ⟨[], op, ops, b, rfl, rfl, hop.trans (congrArg _ (Except.error.inj h))⟩
      · rintro ⟨earlier, first, later, before, hops, hearlier, hfirst⟩
        cases earlier with
        | nil =>
          obtain ⟨rfl, rfl⟩ := List.cons.inj hops
          obtain rfl := Except.ok.inj hearlier
          rw [← hop, hfirst]
        | cons first' earlier =>
          -- nothing succeeds after the operation that failed
          obtain ⟨rfl, rfl⟩ := List.cons.inj hops
          rw [applyAll, hop] at hearlier
          nomatch hearlier
    | ok after =>
      have hgoes : ∀ others, applyAll b (op :: others) = applyAll after others := by
        intro others
        rw [applyAll, hop]
        rfl
      rw [hgoes, ih]
      constructor
      · rintro ⟨earlier, first, later, before, rfl, hearlier, hfirst⟩
        exact ⟨op :: earlier, first, later, before, rfl, (hgoes earlier).trans hearlier, hfirst⟩
      · rintro ⟨earlier, first, later, before, hops, hearlier, hfirst⟩
        cases earlier with
        | nil =>
          obtain ⟨rfl, rfl⟩ := List.cons.inj hops
          obtain rfl := Except.ok.inj hearlier
          rw [hop] at hfirst
          nomatch hfirst
        | cons first' earlier =>
          obtain ⟨rfl, rfl⟩ := List.cons.inj hops
          exact ⟨earlier, first, later, before, rfl, (hgoes earlier).symm.trans hearlier, hfirst⟩

theorem ensureDepth_zero_eq_ok_iff {b : BlockStack} : b.ensureDepth 0 = .ok () ↔ b.frames = [] := by
  obtain ⟨_ | ⟨f, below⟩⟩ := b
  · exact ⟨fun _ => rfl, fun _ => rfl⟩
  · exact ⟨nofun, nofun⟩

theorem ensureDepth_zero_eq_error_iff {b : BlockStack} {e : StructureError} :
    b.ensureDepth 0 = .error e ↔
      ∃ f below, b.frames = f :: below ∧ e = .unclosedBlock f.openedBy f.openedAt := by
  obtain ⟨_ | ⟨f, below⟩⟩ := b
  · exact ⟨nofun, fun ⟨_, _, h, _⟩ => nomatch h⟩
  · constructor
    · intro h
      exact ⟨f, below, rfl, (Except.error.inj h).symm⟩
    · rintro ⟨g, others, hframes, rfl⟩
      obtain ⟨rfl, rfl⟩ := List.cons.inj hframes
      rfl

end BlockOperation

section Reading

variable {ops : List BlockOperation} {b : BlockStack}

/-- After operations that succeed no block is open exactly when their kinds are derived. -/
theorem frames_eq_nil_iff (h : applyAll .empty ops = .ok b) :
    b.frames = [] ↔ Nested (kinds ops) := by
  have hlayout := Layout.of_applyAll h
  constructor
  · intro hframes
    rw [hframes] at hlayout
    cases hlayout with
    | outside nested => exact nested
  · intro hnested
    rw [hnested.neutral ops rfl] at h
    rw [← Except.ok.inj h]
    rfl

/-- After operations that succeed the innermost frame tells which block is open and whether it had
its last branch. -/
theorem innermost_iff (h : applyAll .empty ops = .ok b) (hadElse : Bool) (d : Directive)
    (line : Nat) :
    (∃ f below, b.frames = f :: below ∧ f.elseSeen = hadElse ∧ f.openedBy = d ∧
      f.openedAt = line) ↔ LeavesOpen ops hadElse d line := by
  constructor
  · rintro ⟨f, below, hframes, rfl, rfl, rfl⟩
    have hlayout := Layout.of_applyAll h
    rw [hframes] at hlayout
    cases hlayout with
    | inside condition around branches => exact ⟨_, condition, _, rfl, branches⟩
  · rintro ⟨before, condition, body, rfl, hbranches⟩
    rw [applyAll_append, bind_eq_ok_iff] at h
    obtain ⟨around, -, hrun⟩ := h
    have hopen : (openedFrame around.frames condition d line).elseSeen = false := rfl
    obtain ⟨g, hbody, hseen, hsame⟩ := hbranches.applyAll_eq_ok hopen
    have hentered : applyAll around (.enter condition d line :: body) = .ok ⟨g :: around.frames⟩ :=
      hbody
    rw [hentered] at hrun
    obtain rfl := Except.ok.inj hrun
    exact ⟨g, around.frames, rfl, hseen, hsame.openedBy, hsame.openedAt⟩

end Reading

/-- **The accepted sequences are the nested ones.** Operations from the empty stack on all succeed
and leave no block open exactly when their kinds are derived by the grammar. Otherwise the failure
is one of three, each in its own case:

- the first operation that fails needs an open block, and the operations before it are nested, so
  that none is open;
- it goes on to another branch of the innermost open block, which had its last branch;
- no operation fails, and the failure names the innermost block that is left open and its line.

The frames say the same: no block is open exactly when the operations so far are nested, and the
innermost frame is that of the block which they leave open. -/
theorem check_outcome (ops : List BlockOperation) :
    (check ops = .ok () ↔ Nested (kinds ops)) ∧
    (∀ e, check ops = .error e ↔
      (∃ earlier op later, ops = earlier ++ op :: later ∧ op.kind ≠ .enter ∧
        Nested (kinds earlier) ∧ e = .withoutIf op.directive) ∨
      (∃ earlier op later before d line, ops = earlier ++ op :: later ∧
        applyAll .empty earlier = .ok before ∧ op.isBranch = true ∧
        LeavesOpen earlier true d line ∧ e = .afterElse op.directive) ∨
      (∃ after hadElse d line, applyAll .empty ops = .ok after ∧
        LeavesOpen ops hadElse d line ∧ e = .unclosedBlock d line)) ∧
    (∀ b, applyAll .empty ops = .ok b → (b.frames = [] ↔ Nested (kinds ops)) ∧
      ∀ hadElse d line, (∃ f below, b.frames = f :: below ∧ f.elseSeen = hadElse ∧
        f.openedBy = d ∧ f.openedAt = line) ↔ LeavesOpen ops hadElse d line) := by
  refine ⟨?_, fun e => ?_, fun b h => ⟨frames_eq_nil_iff h, innermost_iff h⟩⟩
  · constructor
    · intro h
      obtain ⟨b, hops, hclosed⟩ := bind_eq_ok_iff.1 h
      exact (frames_eq_nil_iff hops).1 (ensureDepth_zero_eq_ok_iff.1 hclosed)
    · intro h
      unfold check
      rw [h.neutral ops rfl]
      rfl
  · unfold check
    rw [bind_eq_error_iff, applyAll_eq_error_iff]
    constructor
    · rintro (⟨earlier, op, later, before, hsplit, hearlier, hop⟩ | ⟨after, hops, hopen⟩)
      · rcases apply_eq_error_iff.1 hop with ⟨hkind, hempty, he⟩ | ⟨hbranch, he, f, below, hf, helse⟩
        · exact .inl ⟨earlier, op, later, hsplit, hkind, (frames_eq_nil_iff hearlier).1 hempty, he⟩
        · exact .inr (.inl ⟨earlier, op, later, before, _, _, hsplit, hearlier, hbranch,
            (innermost_iff hearlier _ _ _).1 ⟨f, below, hf, helse, rfl, rfl⟩, he⟩)
      · obtain ⟨f, below, hf, he⟩ := ensureDepth_zero_eq_error_iff.1 hopen
        exact .inr (.inr ⟨after, _, _, _, hops,
          (innermost_iff hops _ _ _).1 ⟨f, below, hf, rfl, rfl, rfl⟩, he⟩)
    · rintro (⟨earlier, op, later, hsplit, hkind, hnested, he⟩ |
        ⟨earlier, op, later, before, d, line, hsplit, hearlier, hbranch, hleaves, he⟩ |
        ⟨after, hadElse, d, line, hops, hleaves, he⟩)
      -- nested operations leave the empty stack as it is
      · have hearlier := hnested.neutral earlier rfl .empty
        exact .inl ⟨earlier, op, later, .empty, hsplit, hearlier,
          apply_eq_error_iff.2 (.inl ⟨hkind, rfl, he⟩)⟩
      · obtain ⟨f, below, hf, helse, -⟩ := (innermost_iff hearlier _ _ _).2 hleaves
        exact .inl ⟨earlier, op, later, before, hsplit, hearlier,
          apply_eq_error_iff.2 (.inr ⟨hbranch, he, f, below, hf, helse⟩)⟩
      · obtain ⟨f, below, hf, -, rfl, rfl⟩ := (innermost_iff hops _ _ _).2 hleaves
        exact .inr ⟨after, hops, ensureDepth_zero_eq_error_iff.2 ⟨f, below, hf, he⟩⟩

end SourcePreprocessor
