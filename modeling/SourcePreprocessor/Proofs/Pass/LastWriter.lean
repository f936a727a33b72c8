import SourcePreprocessor.Proofs.Pass.Change
import SourcePreprocessor.Proofs.Pass.Course

/-!
# Variables follow their last writer

Three directives change variables: one assigns a variable of the file, one defines a variable of the
run, and one makes a name undefined in both. The changes that a pass has carried out when it comes
to a stage are its history (`Runs`), across all texts that it went through. What a name stands for
at the stage is told by the history alone:

> `resolves_iff`: the value of the latest assignment since the name was last undefined, or else of
> the latest definition since then, or else what the name stood for at the start of the run.

Only the four names that tell the place (`placeNames`) hide what was assigned or defined. A
conditional on a name takes its branch by what an expression of the name would find
(`Stage.branches`). All this follows from what one step does to the tables (`Follows.congr` and
`Follows.cons`), by induction on the run.
-/

namespace SourcePreprocessor

/-! ## Changes -/

namespace Write

/-- The change gives the variable of the file with this name, in whatever case, the value. -/
def Assigns (x : Text) (v : Value) : Write → Prop
  | .assign name u => Text.lower name = Text.lower x ∧ u = v
  | _ => False

/-- The change gives the variable of the run with this name, in whatever case, the value. -/
def Defines (x : Text) (v : Value) : Write → Prop
  | .define name u => Text.lower name = Text.lower x ∧ u = v
  | _ => False

/-- The change makes the name, in whatever case, undefined. -/
def Undefines (x : Text) : Write → Prop
  | .undefine name => Text.lower name = Text.lower x
  | _ => False

/-- The change leaves the variable of the run with this name alone. -/
def Spares (x : Text) (w : Write) : Prop := (∀ v, ¬ w.Defines x v) ∧ ¬ w.Undefines x

end Write

/-- Among changes, the latest first, one sets the name to the value, and no later one sets it or
makes it undefined. -/
def Latest (sets : Value → Write → Prop) (x : Text) (history : List Write) (v : Value) : Prop :=
  ∃ later w earlier, history = later ++ w :: earlier ∧ sets v w ∧
    ∀ q ∈ later, (∀ u, ¬ sets u q) ∧ ¬ q.Undefines x

/-- What a name stands for after changes, the latest first, when it stood for what the table says
before them. -/
inductive Resolves (start : Table) (history : List Write) (x : Text) : Option Value → Prop
  | assigned {v : Value} (assigned : Latest (Write.Assigns x) x history v) :
    Resolves start history x (some v)
  | defined {v : Value} (unassigned : ∀ u, ¬ Latest (Write.Assigns x) x history u)
    (defined : Latest (Write.Defines x) x history v) : Resolves start history x (some v)
  | spared (unassigned : ∀ u, ¬ Latest (Write.Assigns x) x history u)
    (spared : ∀ w ∈ history, w.Spares x) : Resolves start history x (start.get? x)
  | undefined (unassigned : ∀ u, ¬ Latest (Write.Assigns x) x history u)
    (undefined : ∀ u, ¬ Latest (Write.Defines x) x history u)
    (changed : ∃ w ∈ history, ¬ w.Spares x) : Resolves start history x none

/-- The next line carries out the change. -/
def Stage.Writes (env : Environment) (s : Stage) (w : Write) : Prop :=
  ∃ content, s.reading.content? = some content ∧ s.machine.state.blocks.isActive = true ∧
    WritesLine env.marker s.scope content w

/-- Steps lead from one stage to the other, and these are the changes on the way, the latest
first. -/
inductive Runs (env : Environment) (s : Stage) : List Write → Stage → Prop
  | start : Runs env s [] s
  | quiet {history : List Write} {mid last : Stage} (runs : Runs env s history mid)
    (quiet : ∀ w, ¬ mid.Writes env w) (step : Step env mid last) : Runs env s history last
  | write {history : List Write} {mid last : Stage} {w : Write} (runs : Runs env s history mid)
    (writes : mid.Writes env w) (step : Step env mid last) : Runs env s (w :: history) last

theorem exists_runs {env : Environment} {s last : Stage} (h : Reaches env s last) :
    ∃ history, Runs env s history last := by
  induction h with
  | refl => exact ⟨[], .start⟩
  | @tail mid last _ step ih =>
    obtain ⟨history, hruns⟩ := ih
    by_cases hwrites : ∃ w, mid.Writes env w
    · obtain ⟨w, hw⟩ := hwrites
      exact ⟨w :: history, .write hruns hw step⟩
    · exact ⟨history, .quiet hruns (not_exists.1 hwrites) step⟩

/-! ## The latest change -/

section Changes

variable {sets : Value → Write → Prop} {x : Text} {history : List Write} {v : Value} {w : Write}

theorem not_latest_nil : ¬ Latest sets x [] v := by
  rintro ⟨later, w, earlier, h, -⟩
  exact List.append_ne_nil_of_right_ne_nil _ (List.cons_ne_nil _ _) h.symm

/-- The latest change is the one that counts, or it has nothing to do with the name. -/
theorem latest_cons_iff :
    Latest sets x (w :: history) v ↔
      sets v w ∨ (∀ u, ¬ sets u w) ∧ ¬ w.Undefines x ∧ Latest sets x history v := by
  constructor
  · rintro ⟨later, q, earlier, h, hq, hlater⟩
    cases later with
    | nil =>
      obtain ⟨rfl, -⟩ := List.cons.inj h
      exact .inl hq
    | cons p later =>
      obtain ⟨rfl, rfl⟩ := List.cons.inj h
      rw [List.forall_mem_cons] at hlater
      exact .inr ⟨hlater.1.1, hlater.1.2, later, q, earlier, rfl, hq, hlater.2⟩
  · rintro (hw | ⟨hnone, hundefines, later, q, earlier, rfl, hq, hlater⟩)
    · exact ⟨[], w, history, rfl, hw, nofun⟩
    · exact ⟨w :: later, q, earlier, rfl, hq, List.forall_mem_cons.2 ⟨⟨hnone, hundefines⟩, hlater⟩⟩

end Changes

/-! ## What a step changes -/

section Steps

variable {env : Environment} {s s' : Stage}

theorem Stage.Writes.lower_name {w : Write} (h : s.Writes env w) :
    Text.lower (Text.lower w.name) = Text.lower w.name := by
  obtain ⟨content, -, -, hline⟩ := h
  exact hline.lower_name

/-- A step changes the variables by the change that the line carries out. -/
theorem Step.tables_of_writes (h : Step env s s') {w : Write} (hw : s.Writes env w) :
    s'.machine.tables = w.apply s.machine.tables := by
  obtain ⟨content, hcontent, hactive, hline⟩ := hw
  have heffect : s.effect env content = .ok w.effect := hline.lineEffect hactive
  cases h with
  | line stays goes =>
    obtain rfl := Option.some.inj (hcontent.symm.trans stays.found)
    obtain ⟨e, he, hafter⟩ := tables_processLine stays.own goes
    obtain rfl := Except.ok.inj (heffect.symm.trans he)
    exact hafter.trans (tables_perform_effect _ _ w)
  | enter found entered =>
    obtain rfl := Option.some.inj (hcontent.symm.trans found)
    have henter := Except.ok.inj (heffect.symm.trans entered)
    cases w <;> nomatch henter
  | leave finished => nomatch finished.symm.trans hcontent

/-- A step from a line that carries out no change leaves the variables as they are. -/
theorem Step.tables_of_quiet (h : Step env s s') (hquiet : ∀ w, ¬ s.Writes env w) :
    s'.machine.tables = s.machine.tables := by
  cases h with
  | line stays goes =>
    obtain ⟨e, he, hafter⟩ := tables_processLine stays.own goes
    refine hafter.trans (tables_perform _ _ (Bool.eq_false_iff.2 fun hwrite => ?_))
    obtain ⟨hactive, w, hline, -⟩ := exists_writesLine he hwrite
    exact hquiet w ⟨_, stays.found, hactive, hline⟩
  | enter => rfl
  | leave => rfl

end Steps

/-! ## The history tells the variables -/

/-- What the machine has under the name is what the changes left there. -/
structure Follows (start : Table) (history : List Write) (x : Text) (m : Machine) : Prop where
  locals : ∀ v, m.state.locals.get? x = some v ↔ Latest (Write.Assigns x) x history v
  globals : ∀ v, m.globals.get? x = some v ↔
    Latest (Write.Defines x) x history v ∨
      (∀ w ∈ history, w.Spares x) ∧ start.get? x = some v

namespace Follows

variable {start : Table} {history : List Write} {x : Text} {m m' : Machine}

theorem congr (h : Follows start history x m) (hm : m'.tables = m.tables) :
    Follows start history x m' := by
  obtain ⟨hlocals, hglobals⟩ := Prod.mk.inj hm
  exact ⟨hlocals ▸ h.locals, hglobals ▸ h.globals⟩

/-- A name that no change assigns is no variable of the file. -/
theorem locals_eq_none (h : Follows start history x m)
    (hunassigned : ∀ u, ¬ Latest (Write.Assigns x) x history u) : m.state.locals.get? x = none :=
  Option.eq_none_iff_forall_ne_some.2 fun u hu => hunassigned u ((h.locals u).1 hu)

/-- One more change. -/
theorem cons (h : Follows start history x m) {w : Write}
    (hname : Text.lower (Text.lower w.name) = Text.lower w.name)
    (hm : m'.tables = w.apply m.tables) : Follows start (w :: history) x m' := by
  obtain ⟨hlocals, hglobals⟩ := Prod.mk.inj hm
  -- a table that changes is compared under the name that the change has and under all others
  cases w with
  | assign name u =>
    have hset : m'.state.locals = m.state.locals.set name u :=
      hlocals.trans (Table.set_lower hname _ _)
    have hsame : m'.globals = m.globals := hglobals
    refine ⟨fun v => ?_, fun v => ?_⟩
    · rw [hset, Table.get?_set, latest_cons_iff, ← h.locals]
      by_cases hx : Text.lower x = Text.lower name
      · simp [Write.Assigns, hx]
      · simp [Write.Assigns, Write.Undefines, hx, Ne.symm hx]
    · rw [hsame, latest_cons_iff, List.forall_mem_cons]
      simpa [Write.Defines, Write.Undefines, Write.Spares] using h.globals v
  | define name u =>
    have hsame : m'.state.locals = m.state.locals := hlocals
    have hset : m'.globals = m.globals.set name u := hglobals.trans (Table.set_lower hname _ _)
    refine ⟨fun v => ?_, fun v => ?_⟩
    · rw [hsame, latest_cons_iff, ← h.locals]
      simp [Write.Assigns, Write.Undefines]
    · rw [hset, Table.get?_set, latest_cons_iff, List.forall_mem_cons]
      by_cases hx : Text.lower x = Text.lower name
      · simp [Write.Defines, Write.Spares, hx]
      · simpa [Write.Defines, Write.Undefines, Write.Spares, hx, Ne.symm hx] using h.globals v
  | undefine name =>
    have hlocal : m'.state.locals = m.state.locals.erase name :=
      hlocals.trans (Table.erase_lower hname _)
    have hglobal : m'.globals = m.globals.erase name := hglobals.trans (Table.erase_lower hname _)
    refine ⟨fun v => ?_, fun v => ?_⟩
    · rw [hlocal, Table.get?_erase, latest_cons_iff, ← h.locals]
      by_cases hx : Text.lower x = Text.lower name
      · simp [Write.Assigns, Write.Undefines, hx]
      · simp [Write.Assigns, Write.Undefines, hx, Ne.symm hx]
    · rw [hglobal, Table.get?_erase, latest_cons_iff, List.forall_mem_cons]
      by_cases hx : Text.lower x = Text.lower name
      · simp [Write.Defines, Write.Undefines, Write.Spares, hx]
      · simpa [Write.Defines, Write.Undefines, Write.Spares, hx, Ne.symm hx] using h.globals v

end Follows

section Histories

variable {env : Environment} {start : Table} {history : List Write} {x : Text} {m : Machine}

/-- What a run leaves in the tables is told by its history, from a start without variables of the
file. -/
theorem follows_of_runs {s last : Stage} (h : Runs env s history last)
    (hlocals : s.machine.state.locals = .empty) (x : Text) :
    Follows s.machine.globals history x last.machine := by
  induction h with
  | start =>
    refine ⟨fun v => ?_, fun v => ?_⟩
    · rw [hlocals]
      exact ⟨nofun, fun h => absurd h not_latest_nil⟩
    · exact ⟨fun h => .inr ⟨nofun, h⟩, fun h => h.elim (absurd · not_latest_nil) And.right⟩
  | quiet _ quiet step ih => exact ih.congr (step.tables_of_quiet quiet)
  | write _ writes step ih => exact ih.cons writes.lower_name (step.tables_of_writes writes)

/-- A change that spares a name does not define it. -/
theorem not_latest_of_spared (h : ∀ w ∈ history, w.Spares x) (v : Value) :
    ¬ Latest (Write.Defines x) x history v := by
  rintro ⟨later, w, earlier, rfl, hdefines, -⟩
  exact (h w (List.mem_append_right _ List.mem_cons_self)).1 v hdefines

/-- A variable of the run that no change concerns is as it was. -/
theorem Follows.globals_of_spared (h : Follows start history x m)
    (hspared : ∀ w ∈ history, w.Spares x) : m.globals.get? x = start.get? x := by
  refine Option.ext fun v => (h.globals v).trans ⟨fun hv => ?_, fun hv => .inr ⟨hspared, hv⟩⟩
  exact hv.elim (absurd · (not_latest_of_spared hspared v)) And.right

/-- What a name stands for after the changes is what the tables say, those of the file first. -/
theorem resolves_iff (h : Follows start history x m) (r : Option Value) :
    Resolves start history x r ↔ r = (m.state.locals.get? x).or (m.globals.get? x) := by
  constructor
  · intro hresolves
    cases hresolves with
    | assigned assigned =>
      rw [(h.locals _).2 assigned]
      rfl
    | defined unassigned defined =>
      rw [h.locals_eq_none unassigned, Option.none_or, (h.globals _).2 (.inl defined)]
    | spared unassigned spared =>
      rw [h.locals_eq_none unassigned, Option.none_or, h.globals_of_spared spared]
    | undefined unassigned undefined changed =>
      rw [h.locals_eq_none unassigned, Option.none_or]
      refine (Option.eq_none_iff_forall_ne_some.2 fun v hv => ?_).symm
      obtain ⟨w, hw, hchanged⟩ := changed
      exact ((h.globals v).1 hv).elim (undefined v) fun hspared => hchanged (hspared.1 w hw)
  · rintro rfl
    cases hlocal : m.state.locals.get? x with
    | some v => exact .assigned ((h.locals v).1 hlocal)
    | none =>
      have hunassigned (u : Value) : ¬ Latest (Write.Assigns x) x history u := fun hu =>
        nomatch hlocal.symm.trans ((h.locals u).2 hu)
      rw [Option.none_or]
      by_cases hspared : ∀ w ∈ history, w.Spares x
      · rw [h.globals_of_spared hspared]
        exact .spared hunassigned hspared
      · cases hglobal : m.globals.get? x with
        | some v =>
          refine .defined hunassigned (((h.globals v).1 hglobal).resolve_right ?_)
          exact fun h => hspared h.1
        | none =>
          refine .undefined hunassigned (fun u hu => ?_) ?_
          · nomatch hglobal.symm.trans ((h.globals u).2 (.inl hu))
          · obtain ⟨w, hw⟩ := not_forall.1 hspared
            exact ⟨w, Classical.not_imp.1 hw⟩

end Histories

/-! ## What a name evaluates to -/

/-- The names that tell the place. -/
def placeNames : List Text :=
  ["__line__".toList, "__filename__".toList, "__filefolder__".toList, "__file__".toList]

/-- What the evaluation of a name gives that stands for this. -/
def valueOf (x : Text) : Option Value → Except Cause Value
  | some v => .ok v
  | none => .error (.evaluation (.unknownVariable (Text.lower x)))

section Names

variable {x : Text} {scope : Scope}

/-- An expression of one name is looked up in lower case. -/
theorem lineValue_word (h : IsWord x) (scope : Scope) :
    lineValue scope x = valueOf x (scope.get? (Text.lower x)) := by
  unfold lineValue
  rw [parse_isWord h]
  show ((Item.eval scope.get? _).mapError _).mapError _ = _
  rw [Item.eval]
  cases scope.get? (Text.lower x) <;> rfl

/-- The names that tell the place hide all variables. -/
theorem Scope.get?_of_special? {name : Text} {v : Value} (h : scope.special? name = some v) :
    scope.get? name = some v := by
  unfold Scope.get?
  rw [h, Option.some_or]

/-- Other names are looked up in the tables, and there without regard to case. -/
theorem Machine.scope_get?_lower {m : Machine} {here : Position} (h : IsWord x)
    (hplace : Text.lower x ∉ placeNames) :
    (m.scope here).get? (Text.lower x) =
      (m.state.locals.get? x).or (m.globals.get? x) := by
  have htable (t : Table) : t.get? (Text.lower x) = t.get? x := by
    unfold Table.get?
    rw [(lower_of_isName h.1).2]
  have hspecial : (m.scope here).special? (Text.lower x) = none := by
    simp only [placeNames, List.mem_cons, List.not_mem_nil, or_false, not_or] at hplace
    obtain ⟨hline, hfileName, hfolder, hfile⟩ := hplace
    unfold Scope.special?
    rw [if_neg hline, if_neg hfileName, if_neg hfolder, if_neg hfile]
  unfold Scope.get?
  rw [hspecial, Option.none_or, htable]
  exact congrArg (Option.or · _) (htable _)

end Names

namespace Stage

/-- An expression of the name, at the next line of a stage with this history, has the value that it
should have. -/
structure Evaluates (globals : Table) (history : List Write) (s : Stage) (x : Text) : Prop where
  line : Text.lower x = "__line__".toList →
    ∀ n : Int64, n.toInt = s.here.line → lineValue s.scope x = .ok (.int n)
  fileName : Text.lower x = "__filename__".toList →
    lineValue s.scope x = .ok (.str (s.here.file.fileName?.getD []))
  folder : Text.lower x = "__filefolder__".toList →
    lineValue s.scope x = .ok (.str (Scope.folder s.here.file))
  file : Text.lower x = "__file__".toList → lineValue s.scope x = .ok (.str s.here.file.text)
  other : Text.lower x ∉ placeNames →
    ∃ r, (∀ r', Resolves globals history x r' ↔ r' = r) ∧ lineValue s.scope x = valueOf x r

/-- An expression of the name has a value at the next line. -/
def Finds (s : Stage) (x : Text) : Prop := ∃ v, lineValue s.scope x = .ok v

/-- If the next line is this conditional on the name, it opens a block, and the text in the block is
kept exactly when this holds. -/
def Branches (env : Environment) (s : Stage) (d : Directive) (x : Text) (kept : Prop) : Prop :=
  ∀ content argument, s.reading.content? = some content → s.machine.state.blocks.isActive = true →
    lineKind env.marker content = .directive d argument → Text.trim argument = x →
      ∃ b : Bool, Step env s
          (s.next (s.machine.withBlocks (s.machine.state.blocks.enter (some b) d s.here.line))) ∧
        ((s.machine.state.blocks.enter (some b) d s.here.line).isActive = true ↔ kept)

variable {globals : Table} {history : List Write} {s : Stage} {x : Text}

theorem evaluates_of_follows (h : Follows globals history x s.machine) (hx : IsWord x) :
    s.Evaluates globals history x := by
  have hvalue := lineValue_word hx s.scope
  have hspecial {v : Value} (hv : s.scope.special? (Text.lower x) = some v) :
      lineValue s.scope x = .ok v := by
    rw [hvalue, Scope.get?_of_special? hv, valueOf]
  refine ⟨fun hline n hn => ?_, fun hname => ?_, fun hfolder => ?_, fun hfile => ?_,
    fun hother => ?_⟩
  · refine hspecial ?_
    unfold Scope.special?
    rw [if_pos hline]
    exact congrArg (Option.map Value.int) (Number.narrow?_eq_some_iff.2 hn)
  · refine hspecial ?_
    unfold Scope.special?
    rw [hname, if_neg (by decide), if_pos rfl]
    rfl
  · refine hspecial ?_
    unfold Scope.special?
    rw [hfolder, if_neg (by decide), if_neg (by decide), if_pos rfl]
    rfl
  · refine hspecial ?_
    unfold Scope.special?
    rw [hfile, if_neg (by decide), if_neg (by decide), if_neg (by decide), if_pos rfl]
    rfl
  · refine ⟨_, resolves_iff h, ?_⟩
    rw [hvalue]
    exact congrArg (valueOf x) (Machine.scope_get?_lower hx hother)

/-- A conditional on a name is a step into its block when its condition has a value. -/
theorem branches_of_conditionHolds {env : Environment} {d : Directive} {b : Bool} {kept : Prop}
    (hd : d = .ifDefined ∨ d = .ifUndefined)
    (hholds : ∀ argument, Text.trim argument = x → conditionHolds s.scope d argument = .ok b)
    (hkept : b = true ↔ kept) : s.Branches env d x kept := by
  intro content argument hcontent hactive hkind hargument
  refine ⟨b, ?_, ?_⟩
  · have hblocks : conditionalBlocks s.scope s.machine.state.blocks d argument =
        .ok (s.machine.state.blocks.enter (some b) d s.here.line) := by
      have hcondition : conditionIf s.machine.state.blocks.isActive s.scope d argument =
          .ok (some b) := by
        rw [hactive, conditionIf, if_pos rfl, hholds argument hargument]
        rfl
      rcases hd with rfl | rfl
      all_goals
        show (conditionIf s.machine.state.blocks.isActive s.scope _ argument >>= _) = _
        rw [hcondition]
        rfl
    have heffect : s.effect env content =
        .ok (.reblock (s.machine.state.blocks.enter (some b) d s.here.line)) := by
      unfold effect lineEffect
      rw [hkind]
      dsimp only
      rw [if_neg (by rcases hd with rfl | rfl <;> decide),
        if_pos (by rcases hd with rfl | rfl <;> rfl)]
      show (atColumn _ (conditionalBlocks s.scope _ d argument)).map Effect.reblock = _
      rw [hblocks]
      rfl
    have howns : ∀ target u, s.effect env content ≠ .ok (.enter target u) := by
      intro target u henter
      cases heffect.symm.trans henter
    refine .line ⟨hcontent, howns⟩ ?_
    unfold result processLine
    rw [show lineEffect env s.chain s.here s.machine content = _ from heffect]
    rfl
  · rw [← hkept]
    show (s.machine.state.blocks.isActive &&
      (s.machine.state.blocks.isActive && (some b).getD false)) = true ↔ _
    rw [hactive]
    exact Iff.rfl

/-- A name has a value when the scope has one under it in lower case. -/
theorem finds_iff (hx : IsWord x) : s.Finds x ↔ (s.scope.get? (Text.lower x)).isSome = true := by
  unfold Finds
  rw [lineValue_word hx]
  cases s.scope.get? (Text.lower x) with
  | none => exact ⟨fun ⟨_, h⟩ => (nomatch h), nofun⟩
  | some v => exact ⟨fun _ => rfl, fun _ => ⟨v, rfl⟩⟩

/-- A conditional on a name keeps its text when an expression of the name has a value, or when it has
none. -/
theorem branches (hx : IsWord x) (env : Environment) :
    s.Branches env .ifDefined x (s.Finds x) ∧ s.Branches env .ifUndefined x (¬ s.Finds x) := by
  have hargument {d : Directive} {argument : Text} (h : Text.trim argument = x) :
      d.variableArgument argument = .ok (Text.lower x) :=
    variableArgument_eq_ok_iff.2 ⟨h.symm ▸ hx.1, by rw [h]⟩
  constructor
  · refine branches_of_conditionHolds (.inl rfl) (fun argument h => ?_) (finds_iff hx).symm
    rw [conditionHolds, hargument h]
    rfl
  · have hnone : (s.scope.get? (Text.lower x)).isNone = true ↔ ¬ s.Finds x := by
      rw [finds_iff hx, Option.isNone_iff_eq_none, Option.not_isSome_iff_eq_none]
    refine branches_of_conditionHolds (.inr rfl) (fun argument h => ?_) hnone
    rw [conditionHolds, hargument h]
    rfl

end Stage

/-! ## Whole runs -/

/-- **Variables follow their last writer.** Take a pass over a file, from any variables of the run.
At every stage of it, in the file or in an included one, a name in whatever case evaluates to what
the changes carried out so far tell: the value of the latest assignment since the name was last
undefined, or else of the latest definition since then, or what the name stood for at the start if
it was neither defined nor undefined; and otherwise to nothing. The four names that tell the place
do so whatever was assigned. A conditional on a name goes by the same. A variable of the run that was
neither defined nor undefined is as it was at the start, at every stage and when the pass has
succeeded or failed. -/
theorem variables_follow_last_writer (env : Environment) (settings : Settings) (file : Path)
    (t : Text) (globals : Table) (actions : List Action) (log : List LogRecord) :
    (∀ history s, Runs env (.start file t ⟨{}, globals, actions, log⟩) history s →
      (∀ x, IsWord x → s.Evaluates globals history x ∧
        s.Branches env .ifDefined x (s.Finds x) ∧ s.Branches env .ifUndefined x (¬ s.Finds x)) ∧
      ∀ x, (∀ w ∈ history, w.Spares x) → s.machine.globals.get? x = globals.get? x) ∧
    ∃ history s, Runs env (.start file t ⟨{}, globals, actions, log⟩) history s ∧
      (∀ d, (processFile env settings file t ⟨{}, globals, actions, log⟩).1 = .error d →
        Fails env s d) ∧
      (∀ output, (processFile env settings file t ⟨{}, globals, actions, log⟩).1 = .ok output →
        Ends env s) ∧
      ∀ x, (∀ w ∈ history, w.Spares x) →
        (processFile env settings file t ⟨{}, globals, actions, log⟩).2.globals.get? x =
          globals.get? x := by
  have hfollows {history : List Write} {s : Stage}
      (hruns : Runs env (.start file t ⟨{}, globals, actions, log⟩) history s) (x : Text) :
      Follows globals history x s.machine := follows_of_runs hruns rfl x
  refine ⟨fun history s hruns => ⟨fun x hx => ⟨?_, Stage.branches hx env⟩, fun x => ?_⟩, ?_⟩
  · exact Stage.evaluates_of_follows (hfollows hruns x) hx
  · exact (hfollows hruns x).globals_of_spared
  · obtain ⟨s, hreaches, hfails, hends, -, hglobals⟩ := processFile_course env settings file t _
    obtain ⟨history, hruns⟩ := exists_runs hreaches
    refine ⟨history, s, hruns, hfails, hends, fun x hspared => ?_⟩
    rw [hglobals]
    exact (hfollows hruns x).globals_of_spared hspared

/-- The assignment hides the definition in the included file too, until that undefines the name. -/
example :
    (processFile
      { marker := ['@']
        files :=
          { entries := [(["part".toList], .file (.text "/*$n$*/\n@undef N\n@define n 3\n".toList))]
            workingDirectory := [] }
        extension := none }
      {} ⟨"main".toList⟩
      "@define N 1\n@local n = N + 1\n@include \"part\"\n@ifdef N\n/*$N$*/\n@endif".toList
      freshMachine).1.toOption = some "2\n3\n".toList := by
  decide +kernel

end SourcePreprocessor
