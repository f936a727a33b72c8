import SourcePreprocessor.Pass.Line
import SourcePreprocessor.Proofs.Except

/-!
# What one line has to do with the open blocks

The blocks of a file are changed by its conditional directives and by nothing else, and every other
line asks them one question only: whether its text is kept. Both facts are stated here once, for a
line of any kind, and the theorems about whole files go through them.

> `lineEffect_withBlocks`: a line that is no conditional directive asks for the same effect under
> any two stacks that agree on whether text is kept;
> `lineEffect_inert`: it asks for nothing where text is left out;
> `lineEffect_eq_ok`: all that a line can ask for;
> `lineEffect_cases`: what it asks for leaves the blocks alone, unless it includes a file;
> `processLine_withBlocks`: so carrying it out commutes with exchanging the blocks.
-/

namespace SourcePreprocessor

/-- Whether an effect leaves the open blocks alone. An included file need not. -/
def Effect.keepsBlocks : Effect → Bool
  | .reblock _ | .enter .. => false
  | _ => true

/-- Whether an effect concerns nothing but the machine, and not its open blocks. -/
def Effect.isOwn : Effect → Bool
  | .reblock _ | .enter .. | .act .. => false
  | _ => true

/-- Whether an effect concerns nothing but the machine, and neither its open blocks nor its output. -/
def Effect.isQuiet : Effect → Bool
  | .emit _ | .reblock _ | .enter .. | .act .. => false
  | _ => true

theorem Effect.isOwn_of_isQuiet {e : Effect} (h : e.isQuiet = true) : e.isOwn = true := by
  cases e with
  | reblock blocks => nomatch h
  | enter file t => nomatch h
  | act extension arguments column => nomatch h
  | _ => rfl

theorem Effect.keepsBlocks_of_isOwn {e : Effect} (h : e.isOwn = true) : e.keepsBlocks = true := by
  cases e with
  | reblock blocks => nomatch h
  | enter file t => nomatch h
  | _ => rfl

theorem Directive.pass_eq_line {d : Directive} (h : d.pass ≠ .global) : d.pass = .line := by
  cases hp : d.pass with
  | global => exact absurd hp h
  | line => rfl

namespace LineKind

/-- Whether a line is a conditional directive of the line pass. -/
def isConditional : LineKind → Bool
  | .directive d _ => d.pass = .line && d.isConditional
  | _ => false

/-- Whether a line includes a file. -/
def isInclude : LineKind → Bool
  | .directive .includeFile _ => true
  | _ => false

/-- Whether a line is text or a known directive that does not belong to a conditional of the line
pass. -/
def isInert : LineKind → Bool
  | .unknown _ => false
  | k => !k.isConditional

theorem eq_of_isInclude {k : LineKind} (h : k.isInclude = true) :
    ∃ argument, k = .directive .includeFile argument := by
  unfold isInclude at h
  split at h
  · exact ⟨_, rfl⟩
  · nomatch h

theorem isConditional_of_isInclude {k : LineKind} (h : k.isInclude = true) :
    k.isConditional = false := by
  obtain ⟨argument, rfl⟩ := eq_of_isInclude h
  rfl

end LineKind

namespace Machine

/-- The machine with other open blocks. -/
def withBlocks (m : Machine) (blocks : BlockStack) : Machine :=
  { m with state := { m.state with blocks } }

@[simp] theorem withBlocks_withBlocks (m : Machine) (a b : BlockStack) :
    (m.withBlocks a).withBlocks b = m.withBlocks b := rfl

theorem perform_withBlocks (m : Machine) (b : BlockStack) (here : Position) {e : Effect}
    (he : e.keepsBlocks = true) :
    (m.withBlocks b).perform here e = (m.perform here e).withBlocks b := by
  cases e with
  | emit line =>
    unfold perform withBlocks FileState.emit
    cases m.state.target <;> rfl
  | reblock blocks => nomatch he
  | enter file t => nomatch he
  | _ => rfl

end Machine

/-! ## Which effects a line can have -/

section Effects

variable {scope : Scope} {d : Directive} {argument : Text} {column : Nat} {e : Effect}

theorem localEffect_isQuiet (h : localEffect scope d argument column = .ok e) :
    e.isQuiet = true := by
  simp only [localEffect, bind_eq_ok_iff] at h
  obtain ⟨⟨name, source⟩, -, v, -, h⟩ := h
  exact Except.ok.inj h ▸ rfl

theorem defineEffect_isQuiet (h : defineEffect scope d argument column = .ok e) :
    e.isQuiet = true := by
  simp only [defineEffect, bind_eq_ok_iff] at h
  obtain ⟨name, -, h⟩ := h
  -- whether an expression follows the name decides nothing here
  split at h
  all_goals
    split at h
    next => exact Except.ok.inj h ▸ rfl
    next =>
      obtain ⟨v, -, h⟩ := bind_eq_ok_iff.1 h
      exact Except.ok.inj h ▸ rfl

theorem redirectEffect_isQuiet {target : Section}
    (h : redirectEffect d target argument column = .ok e) : e.isQuiet = true := by
  simp only [redirectEffect, bind_eq_ok_iff] at h
  obtain ⟨on, -, h⟩ := h
  exact Except.ok.inj h ▸ rfl

theorem actionEffect_cases {extension : Option Extension}
    (h : actionEffect extension scope d argument column = .ok e) :
    e.isQuiet = true ∨ ∃ x arguments, extension = some x ∧ e = .act x arguments column := by
  cases extension with
  | none => exact .inl (Except.ok.inj h ▸ rfl)
  | some x =>
    simp only [actionEffect, atColumn, mapError_eq_ok_iff, bind_eq_ok_iff] at h
    obtain ⟨es, -, vs, -, h⟩ := h
    exact .inr ⟨x, vs, rfl, (Except.ok.inj h).symm⟩

theorem reportEffect_isQuiet {level : LogLevel}
    (h : reportEffect level scope argument column = .ok e) : e.isQuiet = true := by
  obtain ⟨t, -, rfl⟩ := map_eq_ok_iff.1 h
  rfl

theorem errorEffect_ne_ok (h : errorEffect scope argument column = .ok e) : False := by
  simp only [errorEffect, bind_eq_ok_iff] at h
  obtain ⟨message, -, h⟩ := h
  nomatch h

theorem includeEffect_eq_enter {files : FileTree} {chain : List Position}
    (h : includeEffect files chain scope d argument = .ok e) : ∃ file t, e = .enter file t := by
  simp only [includeEffect, bind_eq_ok_iff] at h
  obtain ⟨_, -, _, -, name, -, h⟩ := h
  split at h
  · nomatch h
  · simp only [bind_eq_ok_iff] at h
    obtain ⟨t, -, h⟩ := h
    exact ⟨_, t, (Except.ok.inj h).symm⟩

/-- A directive outside of conditionals concerns the machine alone and writes nothing, or it hands
values to the extension or includes a file. -/
theorem directiveEffect_cases {env : Environment} {chain : List Position}
    (h : directiveEffect env chain scope d argument column = .ok e) :
    e.isQuiet = true ∨ (∃ x arguments, env.extension = some x ∧ e = .act x arguments column) ∨
      d = .includeFile ∧ ∃ file t, e = .enter file t := by
  unfold directiveEffect at h
  split at h
  next => exact .inl (localEffect_isQuiet h)
  next => exact .inl (defineEffect_isQuiet h)
  next =>
    simp only [atColumn, mapError_eq_ok_iff, bind_eq_ok_iff] at h
    obtain ⟨name, -, h⟩ := h
    exact .inl (Except.ok.inj h ▸ rfl)
  next => exact .inl (redirectEffect_isQuiet h)
  next => exact .inl (redirectEffect_isQuiet h)
  next =>
    rcases actionEffect_cases h with hquiet | hact
    · exact .inl hquiet
    · exact .inr (.inl hact)
  next => exact .inl (reportEffect_isQuiet h)
  next => exact .inl (reportEffect_isQuiet h)
  next => exact (errorEffect_ne_ok h).elim
  next =>
    simp only [atColumn, mapError_eq_ok_iff, bind_eq_ok_iff] at h
    obtain ⟨_, -, h⟩ := h
    exact .inl (Except.ok.inj h ▸ rfl)
  next =>
    simp only [atColumn, mapError_eq_ok_iff, bind_eq_ok_iff] at h
    obtain ⟨holds, -, h⟩ := h
    cases holds <;> exact .inl (Except.ok.inj h ▸ rfl)
  next => exact .inr (.inr ⟨rfl, includeEffect_eq_enter (mapError_eq_ok_iff.1 h)⟩)
  next => exact .inl (Except.ok.inj h ▸ rfl)

end Effects

/-! ## Lines that are no conditional directive -/

section Lines

variable {env : Environment} {chain : List Position} {here : Position} {content : Text}

/-- What a line asks for depends on the blocks only through whether its text is kept. -/
theorem lineEffect_withBlocks (hk : (lineKind env.marker content).isConditional = false)
    {m : Machine} {b : BlockStack} (hb : b.isActive = m.state.blocks.isActive) :
    lineEffect env chain here (m.withBlocks b) content = lineEffect env chain here m content := by
  unfold lineEffect
  cases hkind : lineKind env.marker content with
  | plain =>
    show (if b.isActive then _ else _) = _
    rw [hb]
    rfl
  | unknown rest => rfl
  | directive d argument =>
    rw [hkind] at hk
    dsimp only
    by_cases hp : d.pass = .global
    · rw [if_pos hp, if_pos hp]
    · have hc : d.isConditional = false := by
        simpa [LineKind.isConditional, Directive.pass_eq_line hp] using hk
      rw [if_neg hp, if_neg hp, hc]
      show (if b.isActive then _ else _) = _
      rw [hb]
      rfl

/-- What a line can ask for: something that concerns the machine alone, other blocks, an action of
the extension that is there, or a file to include. -/
theorem lineEffect_eq_ok {m : Machine} {e : Effect}
    (h : lineEffect env chain here m content = .ok e) :
    e.isOwn = true ∨
      ((lineKind env.marker content).isConditional = true ∧ ∃ blocks, e = .reblock blocks) ∨
      (∃ x arguments column, env.extension = some x ∧ e = .act x arguments column) ∨
      (lineKind env.marker content).isInclude = true ∧ m.state.blocks.isActive = true ∧
        ∃ file t, e = .enter file t := by
  unfold lineEffect at h
  cases hkind : lineKind env.marker content with
  | plain =>
    rw [hkind] at h
    dsimp only at h
    split at h
    next =>
      obtain ⟨line, -, rfl⟩ := map_eq_ok_iff.1 h
      exact .inl rfl
    next => exact .inl (Except.ok.inj h ▸ rfl)
  | unknown rest => rw [hkind] at h; nomatch h
  | directive d argument =>
    rw [hkind] at h
    dsimp only at h
    split at h
    -- a directive of the other pass was carried out there
    next => exact .inl (Except.ok.inj h ▸ rfl)
    next hp =>
      split at h
      next hc =>
        obtain ⟨blocks, -, rfl⟩ := map_eq_ok_iff.1 h
        refine .inr (.inl ⟨?_, blocks, rfl⟩)
        simp [LineKind.isConditional, Directive.pass_eq_line hp, hc]
      next =>
        split at h
        next hactive =>
          rcases directiveEffect_cases h with hquiet | ⟨x, arguments, hx, rfl⟩ | ⟨rfl, henter⟩
          · exact .inl (Effect.isOwn_of_isQuiet hquiet)
          · exact .inr (.inr (.inl ⟨x, arguments, _, hx, rfl⟩))
          · exact .inr (.inr (.inr ⟨rfl, hactive, henter⟩))
        next => exact .inl (Except.ok.inj h ▸ rfl)

/-- A line that is no conditional directive leaves the blocks alone, or it includes a file, which
only a line does whose text is kept. -/
theorem lineEffect_cases (hk : (lineKind env.marker content).isConditional = false) {m : Machine}
    {e : Effect} (h : lineEffect env chain here m content = .ok e) :
    e.keepsBlocks = true ∨ (lineKind env.marker content).isInclude = true ∧
      m.state.blocks.isActive = true ∧ ∃ file t, e = .enter file t := by
  rcases lineEffect_eq_ok h with hown | ⟨hc, -⟩ | ⟨x, arguments, column, -, rfl⟩ | hinclude
  · exact .inl (Effect.keepsBlocks_of_isOwn hown)
  · rw [hk] at hc
    nomatch hc
  · exact .inl rfl
  · exact .inr hinclude

/-- In a branch that is left out such a line asks for nothing. -/
theorem lineEffect_inert (hk : (lineKind env.marker content).isInert = true) {m : Machine}
    (hb : m.state.blocks.isActive = false) :
    lineEffect env chain here m content = .ok .nothing := by
  unfold lineEffect
  cases hkind : lineKind env.marker content with
  | plain => rw [hb]; rfl
  | unknown rest => rw [hkind] at hk; nomatch hk
  | directive d argument =>
    rw [hkind] at hk
    dsimp only
    by_cases hp : d.pass = .global
    · rw [if_pos hp]
    · have hd : d.isConditional = false := by
        simpa [LineKind.isInert, LineKind.isConditional, Directive.pass_eq_line hp] using hk
      rw [if_neg hp, hd, hb]
      rfl

/-- A conditional directive of the line pass asks for other blocks. -/
theorem lineEffect_conditional {d : Directive} {argument : Text}
    (hkind : lineKind env.marker content = .directive d argument) (hp : d.pass = .line)
    (hd : d.isConditional = true) (m : Machine) :
    lineEffect env chain here m content = (atColumn (argumentColumn content argument)
      (conditionalBlocks (m.scope here) m.state.blocks d argument)).map .reblock := by
  unfold lineEffect
  rw [hkind]
  dsimp only
  rw [hp, if_neg (by decide), hd]
  rfl

/-- Only a line of text that is kept is written, as it was rendered. -/
theorem lineEffect_emit {m : Machine} {line : Text}
    (h : lineEffect env chain here m content = .ok (.emit line)) :
    lineKind env.marker content = .plain ∧ m.state.blocks.isActive = true ∧
      renderLine (m.scope here) content = .ok line := by
  unfold lineEffect at h
  cases hkind : lineKind env.marker content with
  | plain =>
    rw [hkind] at h
    dsimp only at h
    split at h
    next hactive =>
      obtain ⟨rendered, hrendered, heq⟩ := map_eq_ok_iff.1 h
      obtain rfl := Effect.emit.inj heq
      exact ⟨rfl, hactive, hrendered⟩
    next => nomatch h
  | unknown rest => rw [hkind] at h; nomatch h
  | directive d argument =>
    rw [hkind] at h
    dsimp only at h
    split at h
    next => nomatch h
    next =>
      split at h
      next =>
        obtain ⟨blocks, -, heq⟩ := map_eq_ok_iff.1 h
        nomatch heq
      next =>
        split at h
        next =>
          rcases directiveEffect_cases h with hquiet | ⟨_, _, -, heq⟩ | ⟨-, _, _, heq⟩
          · nomatch hquiet
          · nomatch heq
          · nomatch heq
        next => nomatch h

/-- A line that includes a file is no conditional directive. -/
theorem isConditional_of_enter {m : Machine} {file : Path} {t : Text}
    (h : lineEffect env chain here m content = .ok (.enter file t)) :
    (lineKind env.marker content).isConditional = false := by
  rcases lineEffect_eq_ok h with hown | ⟨-, blocks, heq⟩ | ⟨x, arguments, column, -, heq⟩ | ⟨hi, -⟩
  · nomatch hown
  · nomatch heq
  · nomatch heq
  · exact LineKind.isConditional_of_isInclude hi

theorem processLine_enter {enter : List Position → Path → Text → Machine → Processed} {m : Machine}
    {file : Path} {t : Text} (h : lineEffect env chain here m content = .ok (.enter file t)) :
    processLine enter env chain here content m = enter (chain ++ [here]) file t
      (m.note .detail (here.string ++ ": including " ++ file.string)) := by
  unfold processLine
  rw [h]

/-- Carrying out an effect that leaves the blocks alone commutes with exchanging them. It makes no
difference how included files would be processed. -/
theorem processLine_of_keepsBlocks
    (enter enter' : List Position → Path → Text → Machine → Processed) {m : Machine}
    {b : BlockStack} {e : Effect} (he : lineEffect env chain here m content = .ok e)
    (he' : lineEffect env chain here (m.withBlocks b) content = .ok e)
    (hkeep : e.keepsBlocks = true) :
    processLine enter env chain here content (m.withBlocks b) =
      ((processLine enter' env chain here content m).1,
        (processLine enter' env chain here content m).2.withBlocks b) := by
  unfold processLine
  rw [he, he']
  cases e with
  | reblock blocks => nomatch hkeep
  | enter file t => nomatch hkeep
  | act extension arguments column =>
    -- the one effect that can fail when it is carried out: the actions decide, not the blocks
    show (if extension.accepts m.actions ⟨here, arguments⟩ then _ else _) = _
    by_cases ha : extension.accepts m.actions ⟨here, arguments⟩
    · simp only [if_pos ha]
      rfl
    · simp only [if_neg ha]
      rfl
  -- the section of a line is looked up in the state that holds the blocks
  | emit line => exact congrArg (Prod.mk _) (m.perform_withBlocks b here hkeep)
  | _ => rfl

/-- A line that is neither a conditional directive nor an include does the same under any two stacks
that agree on whether its text is kept. -/
theorem processLine_withBlocks (enter enter' : List Position → Path → Text → Machine → Processed)
    (hk : (lineKind env.marker content).isConditional = false)
    (hi : (lineKind env.marker content).isInclude = false)
    {m : Machine} {b : BlockStack} (hb : b.isActive = m.state.blocks.isActive) :
    processLine enter env chain here content (m.withBlocks b) =
      ((processLine enter' env chain here content m).1,
        (processLine enter' env chain here content m).2.withBlocks b) := by
  have hsame : lineEffect env chain here (m.withBlocks b) content =
      lineEffect env chain here m content := lineEffect_withBlocks hk hb
  cases he : lineEffect env chain here m content with
  | error fault =>
    unfold processLine
    rw [hsame, he]
  | ok e =>
    rcases lineEffect_cases hk he with hkeep | ⟨hinclude, -, -⟩
    · exact processLine_of_keepsBlocks enter enter' he (hsame.trans he) hkeep
    · rw [hi] at hinclude
      nomatch hinclude

end Lines

/-! ## Lines one after the other -/

/-- Goes on after a result, unless the pass stopped or failed there. -/
def goOn (r : Processed) (rest : Machine → Processed) : Processed :=
  match r with
  | (.ok .next, m) => rest m
  | r => r

theorem goOn_next (r : Processed) : goOn r (fun m => (.ok .next, m)) = r := by
  obtain ⟨_ | _ | _, _⟩ := r <;> rfl

theorem goOn_goOn (r : Processed) (f g : Machine → Processed) :
    goOn (goOn r f) g = goOn r fun m => goOn (f m) g := by
  obtain ⟨_ | _ | _, _⟩ := r <;> rfl

section Sequences

variable (enter : List Position → Path → Text → Machine → Processed) (env : Environment)
  (chain : List Position)

/-- A line together with the record that the pass stopped at it. -/
def lineStep (here : Position) (content : Text) (m : Machine) : Processed :=
  match processLine enter env chain here content m with
  | (.ok .stop, m) => (.ok .stop, m.note .detail (here.string ++ ": exit"))
  | r => r

/-- A conditional directive changes the blocks or fails. -/
theorem lineStep_conditional {here : Position} {content : Text} {d : Directive} {argument : Text}
    (hkind : lineKind env.marker content = .directive d argument) (hp : d.pass = .line)
    (hd : d.isConditional = true) (m : Machine) :
    lineStep enter env chain here content m =
      match conditionalBlocks (m.scope here) m.state.blocks d argument with
      | .error cause =>
        (.error (Fault.diagnostic ⟨cause, argumentColumn content argument⟩ chain here content), m)
      | .ok blocks => (.ok .next, m.withBlocks blocks) := by
  unfold lineStep processLine
  rw [lineEffect_conditional hkind hp hd]
  cases conditionalBlocks (m.scope here) m.state.blocks d argument <;> rfl

/-- In a branch that is left out a line does nothing, unless it belongs to a conditional or is no
known directive. -/
theorem lineStep_inert {here : Position} {content : Text}
    (hk : (lineKind env.marker content).isInert = true) {m : Machine}
    (hb : m.state.blocks.isActive = false) :
    lineStep enter env chain here content m = (.ok .next, m) := by
  unfold lineStep processLine
  rw [lineEffect_inert hk hb]
  rfl

theorem processLines_cons (file : Path) (line : Nat) (content : Text) (contents : List Text)
    (m : Machine) :
    processLines enter env chain file line (content :: contents) m =
      goOn (lineStep enter env chain ⟨file, line⟩ content m)
        (processLines enter env chain file (line + 1) contents) := by
  rw [processLines]
  unfold lineStep
  obtain ⟨_ | _ | _, _⟩ := processLine enter env chain ⟨file, line⟩ content m <;> rfl

/-- Going through two lists of lines is going through the first and then through the second. -/
theorem processLines_append (file : Path) (line : Nat) (first second : List Text) (m : Machine) :
    processLines enter env chain file line (first ++ second) m =
      goOn (processLines enter env chain file line first m)
        (processLines enter env chain file (line + first.length) second) := by
  induction first generalizing line m with
  | nil => rfl
  | cons content contents ih =>
    have hlength : line + (content :: contents).length = line + 1 + contents.length := by
      simp only [List.length_cons]
      omega
    rw [List.cons_append, processLines_cons, processLines_cons, goOn_goOn, hlength]
    exact congrArg (goOn _) (funext fun m => ih (line + 1) m)

end Sequences

/-- The pass over a text goes through its lines and then checks that its blocks are closed. -/
theorem processText_succ (env : Environment) (bound : Nat) (chain : List Position) (file : Path)
    (t : Text) (m : Machine) :
    processText env (bound + 1) chain file t m =
      goOn (processLines (processText env bound) env chain file 1 (Text.lines t) m)
        (checkClosed chain file m.state.blocks.depth) := by
  rw [processText]
  obtain ⟨_ | _ | _, _⟩ :=
    processLines (processText env bound) env chain file 1 (Text.lines t) m <;> rfl

/-- What the pass over a file makes of the pass over its text. -/
def renderResult (settings : Settings) (t : Text) (r : Processed) :
    Except Diagnostic Text × Machine :=
  match r with
  | (.ok _, m) => (.ok (renderOutput settings t m.state.lines), m)
  | (.error d, m) => (.error d, m)

theorem processFile_eq (env : Environment) (settings : Settings) (file : Path) (t : Text)
    (m : Machine) :
    processFile env settings file t m =
      renderResult settings t (processText env (includeBound env.files) [] file t m) := by
  unfold processFile renderResult
  rfl

end SourcePreprocessor
