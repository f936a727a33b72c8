import SourcePreprocessor.Proofs.Pass.LineInPlace
import SourcePreprocessor.Proofs.Pass.ScanInPlace
import SourcePreprocessor.Proofs.Pass.Visiting

/-!
# A line that fails changes nothing

A line is checked, its expressions are read and evaluated, and only then is anything changed. So a
line that fails leaves everything as it was: the open blocks, the section that receives lines, the
variables of the file and of the run, and all lines written so far. The one trace that it can leave
is the action that an extension refused.

The pass says so by the way it is written, because it decides about a line before it changes
anything. Whether a line could also be gone through in place, writing while it is read, is the
question about the order of its steps; `lineSteps_untouched` answers it for the line pass, and
`scanSteps_untouched` for the global pass.

> `lineSteps_untouched`: the steps in place of a line that enters no file leave the machine as it was
> when they fail, with any machine;
> `processLine_untouched`: the same of the line as the pass takes it;
> `processFile_failsAt`: so a pass over a file that fails ends with what it had when it came to the
> line that failed, or to the end of a text whose blocks are not closed;
> `scanLines_failsAt`: and so does the global pass.

Only an include whose file has been entered fails later than it starts. It fails as a line of that
file does, or at its end.
-/

namespace SourcePreprocessor

/-- The second machine is the first one, except for an action that the extension may have refused. -/
structure Machine.Untouched (m after : Machine) : Prop where
  state : after.state = m.state
  globals : after.globals = m.globals
  log : after.log = m.log
  actions : after.actions = m.actions ∨ ∃ action, after.actions = m.actions ++ [action]

section Lines

variable {env : Environment} {chain : List Position} {here : Position} {content : Text}
  {m after : Machine} {d : Diagnostic}

/-- A line that fails and enters no file leaves the machine as it was. -/
theorem processLine_untouched {enter : List Position → Path → Text → Machine → Processed}
    (hown : ∀ target t, lineEffect env chain here m content ≠ .ok (.enter target t))
    (h : processLine enter env chain here content m = (.error d, after)) : m.Untouched after := by
  unfold processLine at h
  split at h
  next fault _ =>
    obtain ⟨-, rfl⟩ := Prod.mk.inj h
    exact ⟨rfl, rfl, rfl, .inl rfl⟩
  next => nomatch h
  next target t heffect => exact absurd heffect (hown target t)
  next extension arguments column _ =>
    -- the only change before a failure: the extension has been asked
    dsimp only at h
    split at h
    next => nomatch h
    next =>
      obtain ⟨-, rfl⟩ := Prod.mk.inj h
      exact ⟨rfl, rfl, rfl, .inr ⟨_, rfl⟩⟩
  next => nomatch h

/-- A line enters a file only as an include in text that is kept. -/
theorem enters_nothing
    (h : (lineKind env.marker content).isInclude = true → m.state.blocks.isActive = false)
    (target : Path) (t : Text) : lineEffect env chain here m content ≠ .ok (.enter target t) := by
  intro heffect
  obtain ⟨argument, e, name, hentering, -⟩ := entering_of_lineEffect heffect
  have hinactive := h (by rw [hentering.kind]; rfl)
  rw [hentering.active] at hinactive
  nomatch hinactive

/-- The steps in place of a line that fails and enters no file leave the machine as it was, wherever
they stop. -/
theorem lineSteps_untouched {enter : List Position → Path → Text → Machine → Processed}
    {w after : Working Machine} {e : Failure}
    (hexclude : (lineKind env.marker content).isInclude = true → w.state.state.blocks.isActive = false)
    (h : (LineInPlace.lineSteps enter env chain here content).exec w = (.error e, after)) :
    w.state.Untouched after.state := by
  obtain ⟨d, houtcome⟩ :=
    LineSteps.exists_outcome_of_error h fun fault => fault.diagnostic chain here content
  rw [LineInPlace.outcome_lineSteps] at houtcome
  exact processLine_untouched (enters_nothing hexclude) houtcome

/-- The steps in place of a directive of the global pass that fails leave its state as it was. -/
theorem scanSteps_untouched {directive : Directive} {argument : Text} {w after : Working Scan}
    {e : Failure}
    (h : (ScanInPlace.scanSteps here directive argument).exec w = (.error e, after)) :
    after.state = w.state := by
  obtain ⟨d, houtcome⟩ :=
    LineSteps.exists_outcome_of_error h fun fault => fault.diagnostic [] here []
  rw [ScanInPlace.outcome_scanSteps] at houtcome
  split at houtcome
  next => nomatch houtcome
  next => exact (Prod.mk.inj houtcome).2.symm

end Lines

/-! ## Whole files -/

section Places

variable (env : Environment) (file : Path) (t : Text) (m : Machine)

/-- The pass over a text comes to a line that fails without entering a file, or to the end of a text
in which a block is still open. `mid` is the machine with which it comes there. -/
inductive FailsAt (d : Diagnostic) : Machine → Prop
  | line {chain : List Position} {f : Path} {line : Nat} {content : Text} {later : List Text}
    {mid : Machine} (reached : AtLines env file t m chain f line (content :: later) mid)
    (own : ∀ target v, lineEffect env chain ⟨f, line⟩ mid content ≠ .ok (.enter target v))
    (fails : (processLine skipFile env chain ⟨f, line⟩ content mid).1 = .error d) :
    FailsAt d mid
  | unclosed {chain : List Position} {f : Path} {u : Text} {begun mid : Machine}
    (visited : Visits env file t m chain f u begun)
    (reached : LinesEnd env chain f 1 (Text.lines u) begun (.ok .next, mid))
    (fails : (checkClosed chain f begun.state.blocks.depth mid).1 = .error d) :
    FailsAt d mid

/-- The failure is one of a line that the pass comes to, or of its extension, or it is a misuse of
directives. -/
def Originates (d : Diagnostic) : Prop :=
  (∃ chain f line content later mid fault,
    AtLines env file t m chain f line (content :: later) mid ∧
    lineEffect env chain ⟨f, line⟩ mid content = .error fault ∧
    d = fault.diagnostic chain ⟨f, line⟩ content) ∨
  (∃ arguments, d.cause = .evaluation (.extensionFailed arguments)) ∨ ∃ e, d.cause = .structural e

end Places

section Runs

variable {env : Environment} {file : Path} {t : Text} {m : Machine} {chain : List Position}
  {f : Path} {line : Nat} {content : Text} {contents : List Text} {mid : Machine} {d : Diagnostic}

mutual

theorem TextEnds.failsAt {chain : List Position} {f : Path} {u : Text} {begun after : Machine}
    {r : Processed} (h : TextEnds env chain f u begun r)
    (hvisits : Visits env file t m chain f u begun) (hr : r = (.error d, after)) :
    ∃ mid, FailsAt env file t m d mid ∧ mid.Untouched after :=
  match h with
  | .intro (r := (.error _, _)) lines => lines.failsAt (.start hvisits) hr
  | .intro (r := (.ok .stop, _)) _ => nomatch hr
  | .intro (r := (.ok .next, last)) lines => by
    have hlast := snd_goOn_checkClosed (.ok .next, last) chain f begun.state.blocks.depth
    rw [hr] at hlast
    obtain rfl : after = last := hlast
    exact ⟨after, .unclosed hvisits lines (congrArg Prod.fst hr), rfl, rfl, rfl, .inl rfl⟩

theorem LinesEnd.failsAt {chain : List Position} {f : Path} {line : Nat} {contents : List Text}
    {mid after : Machine} {r : Processed} (h : LinesEnd env chain f line contents mid r)
    (hat : AtLines env file t m chain f line contents mid) (hr : r = (.error d, after)) :
    ∃ mid, FailsAt env file t m d mid ∧ mid.Untouched after :=
  match h with
  | .nil => nomatch hr
  | .next first rest => rest.failsAt (hat.next first) hr
  | .stop _ => nomatch hr
  | .fail first => first.failsAt hat hr

theorem LineEnds.failsAt {chain : List Position} {here : Position} {content : Text}
    {contents : List Text} {mid after : Machine} {r : Processed}
    (h : LineEnds env chain here content mid r)
    (hat : AtLines env file t m chain here.file here.line (content :: contents) mid)
    (hr : r = (.error d, after)) : ∃ mid, FailsAt env file t m d mid ∧ mid.Untouched after :=
  match h with
  | .alone own => ⟨mid, .line hat own (congrArg Prod.fst hr), processLine_untouched own hr⟩
  | .entering effect text => text.failsAt (hat.enter effect) hr

end

/-- A pass over a file that fails ends with what it had at the place where it fails. -/
theorem processFile_failsAt {settings : Settings} {after : Machine}
    (h : processFile env settings file t m = (.error d, after)) :
    ∃ mid, FailsAt env file t m d mid ∧ mid.Untouched after := by
  refine (textEnds_processFile env file t m).failsAt .start ?_
  rw [processFile_eq] at h
  revert h
  obtain ⟨_ | _, last⟩ := processText env (includeBound env.files) [] file t m
  · intro h
    obtain ⟨hd, rfl⟩ := Prod.mk.inj h
    rw [Except.error.inj hd]
  · nofun

/-- A line that enters no text fails by itself, or its extension does. -/
theorem processLine_originates (hat : AtLines env file t m chain f line (content :: contents) mid)
    (h : (processLine skipFile env chain ⟨f, line⟩ content mid).1 = .error d) :
    Originates env file t m d := by
  unfold processLine at h
  split at h
  · next fault hfault =>
    obtain rfl := Except.error.inj h
    exact .inl ⟨chain, f, line, content, contents, mid, fault, hat, hfault, rfl⟩
  · nomatch h
  · nomatch h
  · next extension arguments column heffect =>
    dsimp only at h
    split at h
    · nomatch h
    · obtain rfl := Except.error.inj h
      exact .inr (.inl ⟨arguments, rfl⟩)
  · nomatch h

/-- The check at the end of a text finds a block that is not closed. -/
theorem checkClosed_originates {depth : Nat}
    (h : (checkClosed chain f depth mid).1 = .error d) : Originates env file t m d := by
  unfold checkClosed at h
  split at h
  · nomatch h
  · obtain rfl := Except.error.inj h
    exact .inr (.inr ⟨_, rfl⟩)

theorem FailsAt.originates (h : FailsAt env file t m d mid) :
    Originates env file t m d := by
  cases h with
  | line reached _ fails => exact processLine_originates reached fails
  | unclosed _ _ fails => exact checkClosed_originates fails

/-- A file fails at a line that the pass over it comes to, or because of its extension, or because
of a misuse of directives. -/
theorem processFile_originates {settings : Settings}
    (h : (processFile env settings file t m).1 = .error d) : Originates env file t m d := by
  obtain ⟨mid, hfails, -⟩ := processFile_failsAt (Prod.ext h rfl)
  exact hfails.originates

end Runs

/-- Where the global pass over lines fails, it ends with what it had when it came to that line. -/
theorem scanLines_failsAt {marker : Text} {file : Path} {contents : List Text} :
    ∀ {line : Nat} {s after : Scan} {d : Diagnostic},
      scanLines marker file line contents s = (.error d, after) →
        ∃ before content later fault, contents = before ++ content :: later ∧
          scanLines marker file line before s = (.ok (), after) ∧
          scanLine marker after ⟨file, line + before.length⟩ content = .error fault ∧
          d = fault.diagnostic [] ⟨file, line + before.length⟩ content := by
  induction contents with
  | nil => nofun
  | cons content contents ih =>
    intro line s after d h
    rw [scanLines] at h
    cases hline : scanLine marker s ⟨file, line⟩ content with
    | error fault =>
      rw [hline] at h
      obtain ⟨hd, rfl⟩ := Prod.mk.inj h
      exact ⟨[], content, contents, fault, rfl, rfl, hline, (Except.error.inj hd).symm⟩
    | ok next =>
      rw [hline] at h
      obtain ⟨before, found, later, fault, rfl, hbefore, hfault, hd⟩ := ih h
      rw [Nat.add_assoc, Nat.add_comm 1] at hfault hd
      refine ⟨content :: before, found, later, fault, rfl, ?_, hfault, hd⟩
      rw [scanLines, hline]
      exact hbefore

/-- **A line that fails changes nothing.** Let a line be gone through in place, with whatever machine
and at whatever place, and let it fail, wherever it does. When it is no include in text that is kept,
the state of its file and the variables of the run are as they were before it, and so is the log; at
most the extension has received the action that it refused. In the same way a directive of the global
pass that fails leaves the blocks, the variables and the conditions as they were.

These steps are the passes: they come to what the pass makes of the line, in success and in failure.
So a pass over a file that fails, however deep in its includes, ends with what it had when it came to
the place where it fails. And the global pass ends with the blocks, the variables and the conditions
that it had when it came to the line that fails. -/
theorem failing_line_changes_nothing :
    (∀ enter env chain here content (w : Working Machine) e after,
      ((lineKind env.marker content).isInclude = true → w.state.state.blocks.isActive = false) →
      (LineInPlace.lineSteps enter env chain here content).exec w = (.error e, after) →
        w.state.Untouched after.state) ∧
    (∀ enter env chain here content w,
      (LineInPlace.lineSteps enter env chain here content).outcome
        (fun fault => fault.diagnostic chain here content) w =
          processLine enter env chain here content w.state) ∧
    (∀ env settings file t m d after, processFile env settings file t m = (.error d, after) →
      ∃ mid, FailsAt env file t m d mid ∧ mid.Untouched after) ∧
    (∀ here d argument w e after,
      (ScanInPlace.scanSteps here d argument).exec w = (.error e, after) → after.state = w.state) ∧
    (∀ marker file line content contents w,
      scanLines marker file line (content :: contents) w.state =
        match (ScanInPlace.lineSteps marker ⟨file, line⟩ content).outcome
          (fun fault => fault.diagnostic [] ⟨file, line⟩ content) w with
        | (.ok (), s) => scanLines marker file (line + 1) contents s
        | (.error d, s) => (.error d, s)) ∧
    (∀ marker file line contents s d after,
      scanLines marker file line contents s = (.error d, after) →
        ∃ before content later fault, contents = before ++ content :: later ∧
          scanLines marker file line before s = (.ok (), after) ∧
          scanLine marker after ⟨file, line + before.length⟩ content = .error fault ∧
          d = fault.diagnostic [] ⟨file, line + before.length⟩ content) := by
  refine ⟨?_, ?_, ?_, ?_, ?_, ?_⟩
  · intro enter env chain here content w e after hexclude h
    exact lineSteps_untouched hexclude h
  · exact LineInPlace.outcome_lineSteps
  · intro env settings file t m d after h
    exact processFile_failsAt h
  · intro here d argument w e after h
    exact scanSteps_untouched h
  · exact ScanInPlace.scanLines_cons
  · intro marker file line contents s d after h
    exact scanLines_failsAt h

/-! ## A line that fails late -/

/-- The last line fails at its second insertion, after the first one had a value. -/
def lateFailure : Text := "@define n 1\nkept /*$n$*/\n@if n = 1\n/*$n$*/ /*$m$*/".toList

/-- The global pass fails at the second line. -/
def lateDefinition : Text := "@global n = 1\n@global m = n + \"a\" * 2".toList

/-- What comes before the lines that fail is all that there is after them. -/
theorem lateFailure_ends :
    (∃ e after, (LineInPlace.lineSteps skipFile noFiles [] ⟨⟨"main".toList⟩, 1⟩
        "/*$1$*/ /*$m$*/".toList).exec ⟨freshMachine, 1⟩ = (.error e, after) ∧
      freshMachine.Untouched after.state) ∧
    (∃ d after mid, processFile noFiles {} ⟨"main".toList⟩ lateFailure freshMachine =
        (.error d, after) ∧ after.state.lines = ["kept 1".toList] ∧
      FailsAt noFiles ⟨"main".toList⟩ lateFailure freshMachine d mid ∧ mid.Untouched after) ∧
    (∃ e after, (ScanInPlace.scanSteps ⟨⟨"main".toList⟩, 1⟩ .global " m = 1 + \"a\" * 2".toList).exec
        ⟨.start .empty, 8⟩ = (.error e, after) ∧ after.state = .start .empty) ∧
    ∃ d after, scanLines ['@'] ⟨"main".toList⟩ 1 (Text.lines lateDefinition) (.start .empty) =
        (.error d, after) ∧
      ∃ before content later, Text.lines lateDefinition = before ++ content :: later ∧
        scanLines ['@'] ⟨"main".toList⟩ 1 before (.start .empty) = (.ok (), after) := by
  obtain ⟨hline, -, hfile, hdirective, -, hscan⟩ := failing_line_changes_nothing
  refine ⟨?_, ?_, ?_, ?_⟩
  · obtain ⟨e, after, h⟩ := exists_error_of_toOption (r := (LineInPlace.lineSteps skipFile noFiles []
      ⟨⟨"main".toList⟩, 1⟩ "/*$1$*/ /*$m$*/".toList).exec ⟨freshMachine, 1⟩) (by decide +kernel)
    have hplain : (lineKind noFiles.marker "/*$1$*/ /*$m$*/".toList).isInclude = false := by
      decide +kernel
    refine ⟨e, after, h, hline _ _ _ _ _ _ _ _ (fun hinclude => ?_) h⟩
    nomatch hplain.symm.trans hinclude
  · have hlines : (processFile noFiles {} ⟨"main".toList⟩ lateFailure freshMachine).2.state.lines =
        ["kept 1".toList] := by decide +kernel
    obtain ⟨d, after, h⟩ := exists_error_of_toOption (r := processFile noFiles {}
      ⟨"main".toList⟩ lateFailure freshMachine) (by decide +kernel)
    obtain ⟨mid, hfails, huntouched⟩ := hfile _ _ _ _ _ _ _ h
    rw [h] at hlines
    exact ⟨d, after, mid, h, hlines, hfails, huntouched⟩
  · obtain ⟨e, after, h⟩ := exists_error_of_toOption (r := (ScanInPlace.scanSteps
      ⟨⟨"main".toList⟩, 1⟩ .global " m = 1 + \"a\" * 2".toList).exec ⟨.start .empty, 8⟩)
      (by decide +kernel)
    exact ⟨e, after, h, hdirective _ _ _ _ _ _ h⟩
  · obtain ⟨d, after, h⟩ := exists_error_of_toOption (r := scanLines ['@'] ⟨"main".toList⟩ 1
      (Text.lines lateDefinition) (.start .empty)) (by decide +kernel)
    obtain ⟨before, content, later, -, hsplit, hbefore, -⟩ := hscan _ _ _ _ _ _ _ h
    exact ⟨d, after, h, before, content, later, hsplit, hbefore⟩

end SourcePreprocessor
