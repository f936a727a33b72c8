import SourcePreprocessor.Proofs.Pass.Step

/-!
# The log has no part in the line pass

The pass writes to the log and never reads it. So it does not matter what the log holds when the
pass starts:

> `processFile_behind`: with records in front of the log, the pass gives the same result, and the
> same machine with these records in front of its log.

Of a run over several files, an output therefore depends on the files, the variables and the actions
before it, but not on what was reported so far.
-/

namespace SourcePreprocessor

namespace Machine

/-- The machine with records in front of its log. -/
def behind (earlier : List LogRecord) (m : Machine) : Machine := { m with log := earlier ++ m.log }

theorem behind_note (earlier : List LogRecord) (m : Machine) (level : LogLevel) (text : String) :
    (m.behind earlier).note level text = (m.note level text).behind earlier := by
  unfold behind note
  rw [List.append_assoc]

theorem perform_behind (earlier : List LogRecord) (m : Machine) (here : Position) (e : Effect) :
    (m.behind earlier).perform here e = (m.perform here e).behind earlier := by
  cases e with
  | report level t => exact behind_note earlier m level _
  | _ => rfl

end Machine

/-- What a step does has nothing to do with the log it starts from. -/
def LogBlind (f : Machine → Processed) : Prop :=
  ∀ (earlier : List LogRecord) (m : Machine),
    f (m.behind earlier) = ((f m).1, (f m).2.behind earlier)

/-- Two steps that are blind to the log are so together. -/
theorem LogBlind.goOn {f g : Machine → Processed} (hf : LogBlind f) (hg : LogBlind g) :
    LogBlind fun m => goOn (f m) g := by
  intro earlier m
  dsimp only
  rw [hf earlier m]
  match f m with
  | (.error d, after) => rfl
  | (.ok .stop, after) => rfl
  | (.ok .next, after) => exact hg earlier after

section Lines

variable {enter : List Position → Path → Text → Machine → Processed} (env : Environment)
  (chain : List Position)

theorem logBlind_processLine (henter : ∀ chain file t, LogBlind (enter chain file t))
    (here : Position) (content : Text) : LogBlind (processLine enter env chain here content) := by
  intro earlier m
  have heffect : lineEffect env chain here (m.behind earlier) content =
      lineEffect env chain here m content := rfl
  unfold processLine
  rw [heffect]
  match lineEffect env chain here m content with
  | .error fault => rfl
  | .ok .exit => rfl
  | .ok (.enter file t) =>
    dsimp only
    rw [Machine.behind_note]
    exact henter (chain ++ [here]) file t earlier _
  | .ok (.act extension arguments column) =>
    -- the extension sees the actions before this one, which are the same
    have hactions : (m.behind earlier).actions = m.actions := rfl
    dsimp only
    rw [hactions]
    cases extension.accepts m.actions ⟨here, arguments⟩ <;> rfl
  | .ok .nothing | .ok (.emit _) | .ok (.reblock _) | .ok (.bindLocal ..) | .ok (.bindGlobal ..)
  | .ok (.unbind _) | .ok (.redirect _) | .ok (.report ..) =>
    exact congrArg (Prod.mk _) (Machine.perform_behind earlier m here _)

theorem logBlind_lineStep (henter : ∀ chain file t, LogBlind (enter chain file t))
    (here : Position) (content : Text) : LogBlind (lineStep enter env chain here content) := by
  intro earlier m
  unfold lineStep
  rw [logBlind_processLine env chain henter here content earlier m]
  match processLine enter env chain here content m with
  | (.error d, after) => rfl
  | (.ok .next, after) => rfl
  | (.ok .stop, after) => exact congrArg (Prod.mk _) (Machine.behind_note earlier after _ _)

theorem logBlind_processLines (henter : ∀ chain file t, LogBlind (enter chain file t))
    (file : Path) (line : Nat) (contents : List Text) :
    LogBlind (processLines enter env chain file line contents) := by
  induction contents generalizing line with
  | nil => exact fun _ _ => rfl
  | cons content contents ih =>
    intro earlier m
    rw [processLines_cons, processLines_cons]
    exact (logBlind_lineStep env chain henter ⟨file, line⟩ content).goOn (ih (line + 1)) earlier m

end Lines

theorem logBlind_checkClosed (chain : List Position) (file : Path) (depth : Nat) :
    LogBlind (checkClosed chain file depth) := by
  intro earlier m
  have hblocks : (m.behind earlier).state.blocks = m.state.blocks := rfl
  unfold checkClosed
  rw [hblocks]
  cases m.state.blocks.unclosed? depth <;> rfl

theorem logBlind_processText (env : Environment) (bound : Nat) (chain : List Position) (file : Path)
    (t : Text) : LogBlind (processText env bound chain file t) := by
  induction bound generalizing chain file t with
  | zero => exact fun _ _ => rfl
  | succ bound ih =>
    intro earlier m
    rw [processText_succ, processText_succ]
    exact (logBlind_processLines env chain ih file 1 (Text.lines t)).goOn
      (logBlind_checkClosed chain file m.state.blocks.depth) earlier m

/-- **The log has no part in the pass over a file.** -/
theorem processFile_behind (env : Environment) (settings : Settings) (file : Path) (t : Text)
    (earlier : List LogRecord) (m : Machine) :
    processFile env settings file t (m.behind earlier) =
      ((processFile env settings file t m).1,
        (processFile env settings file t m).2.behind earlier) := by
  rw [processFile_eq, processFile_eq, logBlind_processText]
  match processText env (includeBound env.files) [] file t m with
  | (.error d, after) => rfl
  | (.ok flow, after) => rfl

end SourcePreprocessor
