import SourcePreprocessor.Proofs.Pass.Step

/-!
# Structured texts

The line pass drives a flat stack of frames from one line to the next. Read as a whole, a text whose
conditionals are well nested is something simpler: a list of *parts*, each of them a line or a block
of branches whose bodies are lists of parts again. This file gives such texts the meaning that a
reader gives them. A block asks for its conditions from the top until one holds, the body under that
condition is run, or the one after the `else` when none holds, and all other bodies count for
nothing but their number of lines. No frame occurs in it.

> `processFile_eq_runFile`: on the lines of any list of parts, the pass gives the result, the
> variables, the output sections, the actions and the log of that reading.

Two facts about stacks carry the proof, each by induction over the parts. In an inactive branch the
pass goes over any parts without reading them (`processLines_inactive`). In an active one it does
what the reading does and comes back to the blocks it started with, unless it stopped inside
(`processLines_active`). The branches of a block are in between: a frame is *settled* when no
further branch of it can be selected, and then the rest of the block is gone over, and it is
*undecided* as long as no condition held.
-/

namespace SourcePreprocessor

/-- Whether a directive opens a block of the line pass. -/
def Directive.opensBlock : Directive → Bool
  | .ifTrue | .ifDefined | .ifUndefined => true
  | _ => false

/-- Whether a line is text or a known directive that neither belongs to a conditional nor includes a
file. -/
def LineKind.isOrdinary : LineKind → Bool
  | .plain => true
  | .unknown _ => false
  | .directive d _ => !(d.pass = .line && d.isConditional) && d ≠ .includeFile

/-- A line that is the given directive. -/
structure DirectiveLine (marker : Text) (d : Directive) where
  content : Text
  argument : Text
  reads : lineKind marker content = .directive d argument

/-- A line that is the given directive without an argument. -/
structure BareLine (marker : Text) (d : Directive) extends DirectiveLine marker d where
  blank : (Text.trim argument).isEmpty = true

mutual

/-- A part of a structured text. -/
inductive Part (marker : Text) where
  | line (content : Text) (ordinary : (lineKind marker content).isOrdinary = true)
  | block (d : Directive) (opens : d.opensBlock = true) (opening : DirectiveLine marker d)
    (body : List (Part marker)) (branches : Branches marker)

/-- What follows the first body of a block. -/
inductive Branches (marker : Text) where
  | endIf (closing : BareLine marker .endIf)
  | otherwise (line : BareLine marker .otherwise) (body : List (Part marker))
    (closing : BareLine marker .endIf)
  | elseIf (line : DirectiveLine marker .elseIf) (body : List (Part marker))
    (branches : Branches marker)

end

mutual

/-- The lines of a part. -/
def Part.lines {marker : Text} : Part marker → List Text
  | .line content _ => [content]
  | .block _ _ opening body branches => opening.content :: (linesOf body ++ branches.lines)

/-- The lines of the branches after the first one, and of the end of the block. -/
def Branches.lines {marker : Text} : Branches marker → List Text
  | .endIf closing => [closing.content]
  | .otherwise line body closing => line.content :: (linesOf body ++ [closing.content])
  | .elseIf line body branches => line.content :: (linesOf body ++ branches.lines)

/-- The lines of parts, one part after the other. -/
def linesOf {marker : Text} : List (Part marker) → List Text
  | [] => []
  | part :: parts => part.lines ++ linesOf parts

end

/-! ## The reading of a structured text -/

/-- How a file would be included, for lines that include none. -/
def skipFile : List Position → Path → Text → Machine → Processed := fun _ _ _ m => (.ok .next, m)

/-- Whether the condition on a line holds. -/
def DirectiveLine.holds {d : Directive} {env : Environment} (l : DirectiveLine env.marker d)
    (chain : List Position) (here : Position) (m : Machine) : Except Diagnostic Bool :=
  (atColumn (argumentColumn l.content l.argument)
    (conditionHolds (m.scope here) d l.argument)).mapError fun fault =>
      fault.diagnostic chain here l.content

section Reading

variable (env : Environment) (chain : List Position) (file : Path)

mutual

/-- Runs a part whose first line has the given number. -/
def Part.run : Part env.marker → (line : Nat) → Machine → Processed
  | .line content _, line, m =>
    lineStep skipFile env chain ⟨file, line⟩ content (m.withBlocks .empty)
  | .block _ _ opening body branches, line, m =>
    match opening.holds chain ⟨file, line⟩ m with
    | .error d => (.error d, m)
    | .ok true => runParts body (line + 1) m
    | .ok false => branches.run (line + 1 + (linesOf body).length) m

/-- Runs the branches of a block in which no condition held so far. -/
def Branches.run : Branches env.marker → (line : Nat) → Machine → Processed
  | .endIf _, _, m => (.ok .next, m)
  | .otherwise _ body _, line, m => runParts body (line + 1) m
  | .elseIf l body branches, line, m =>
    match l.holds chain ⟨file, line⟩ m with
    | .error d => (.error d, m)
    | .ok true => runParts body (line + 1) m
    | .ok false => branches.run (line + 1 + (linesOf body).length) m

/-- Runs parts one after the other, until the pass stops. -/
def runParts : List (Part env.marker) → (line : Nat) → Machine → Processed
  | [], _, m => (.ok .next, m)
  | part :: parts, line, m =>
    goOn (part.run line m) (runParts parts (line + part.lines.length))

end

end Reading

/-! ## Single lines of a structured text -/

namespace LineKind

theorem isConditional_of_isOrdinary {k : LineKind} (h : k.isOrdinary = true) :
    k.isConditional = false := by
  cases k with
  | plain => rfl
  | unknown rest => rfl
  | directive d argument =>
    simp only [isOrdinary, Bool.and_eq_true, Bool.not_eq_true'] at h
    exact h.1

theorem isInert_of_isOrdinary {k : LineKind} (h : k.isOrdinary = true) : k.isInert = true := by
  cases k with
  | plain => rfl
  | unknown rest => nomatch h
  | directive d argument =>
    show (!(LineKind.directive d argument).isConditional) = true
    rw [isConditional_of_isOrdinary h]
    rfl

theorem isInclude_of_isOrdinary {k : LineKind} (h : k.isOrdinary = true) :
    k.isInclude = false := by
  cases k with
  | plain => rfl
  | unknown rest => rfl
  | directive d argument =>
    simp only [isOrdinary, Bool.and_eq_true, decide_eq_true_eq] at h
    unfold isInclude
    split
    next heq =>
      injection heq with hd
      exact absurd hd h.2
    next => rfl

end LineKind

section SingleLines

variable {enter : List Position → Path → Text → Machine → Processed} {env : Environment}
  {chain : List Position} {here : Position} {m : Machine} {b : BlockStack}

/-- An ordinary line in a branch that is left out does nothing. -/
theorem lineStep_inactive {content : Text}
    (ho : (lineKind env.marker content).isOrdinary = true) (hb : b.isActive = false) :
    lineStep enter env chain here content (m.withBlocks b) = (.ok .next, m.withBlocks b) :=
  lineStep_inert enter env chain (LineKind.isInert_of_isOrdinary ho) hb

/-- An ordinary line in an active branch does what it does outside of all blocks. -/
theorem lineStep_active {content : Text}
    (ho : (lineKind env.marker content).isOrdinary = true) (hb : b.isActive = true) :
    lineStep enter env chain here content (m.withBlocks b) =
      ((lineStep skipFile env chain here content (m.withBlocks .empty)).1,
        (lineStep skipFile env chain here content (m.withBlocks .empty)).2.withBlocks b) := by
  have hsame : b.isActive = (m.withBlocks .empty).state.blocks.isActive := hb
  unfold lineStep
  rw [← Machine.withBlocks_withBlocks m .empty b,
    processLine_withBlocks enter skipFile (LineKind.isConditional_of_isOrdinary ho)
      (LineKind.isInclude_of_isOrdinary ho) hsame]
  obtain ⟨_ | _ | _, _⟩ := processLine skipFile env chain here content (m.withBlocks .empty) <;> rfl

/-- A directive of a block changes the blocks or fails. -/
theorem DirectiveLine.step {d : Directive} (l : DirectiveLine env.marker d)
    (hp : d.pass = .line) (hd : d.isConditional = true) :
    lineStep enter env chain here l.content (m.withBlocks b) =
      match conditionalBlocks (m.scope here) b d l.argument with
      | .error cause =>
        (.error (Fault.diagnostic ⟨cause, argumentColumn l.content l.argument⟩ chain here l.content),
          m.withBlocks b)
      | .ok blocks => (.ok .next, m.withBlocks blocks) :=
  lineStep_conditional enter env chain l.reads hp hd (m.withBlocks b)

/-! The directives of a block, one by one. A condition that cannot select its branch is not asked
for, so its line never fails. -/

theorem opensBlock_conditional {d : Directive} (h : d.opensBlock = true) :
    d.pass = .line ∧ d.isConditional = true := by
  revert h
  cases d <;> decide

theorem conditionalBlocks_opening {d : Directive} (h : d.opensBlock = true) (scope : Scope)
    (argument : Text) :
    conditionalBlocks scope b d argument =
      (conditionIf b.isActive scope d argument).map fun c => b.enter c d scope.line := by
  cases d <;> first | rfl | nomatch h

theorem opening_inactive {d : Directive} (h : d.opensBlock = true)
    (l : DirectiveLine env.marker d) (hb : b.isActive = false) :
    lineStep enter env chain here l.content (m.withBlocks b) =
      (.ok .next, m.withBlocks ⟨⟨false, false, false, false, d, here.line⟩ :: b.frames⟩) := by
  rw [l.step (opensBlock_conditional h).1 (opensBlock_conditional h).2,
    conditionalBlocks_opening h, hb]
  show (_, m.withBlocks (b.enter none d here.line)) = _
  rw [BlockStack.enter, hb]
  rfl

theorem opening_active {d : Directive} (h : d.opensBlock = true)
    (l : DirectiveLine env.marker d) (hb : b.isActive = true) :
    lineStep enter env chain here l.content (m.withBlocks b) =
      match l.holds chain here m with
      | .error diagnostic => (.error diagnostic, m.withBlocks b)
      | .ok c => (.ok .next, m.withBlocks ⟨⟨c, c, true, false, d, here.line⟩ :: b.frames⟩) := by
  rw [l.step (opensBlock_conditional h).1 (opensBlock_conditional h).2,
    conditionalBlocks_opening h, hb]
  unfold DirectiveLine.holds conditionIf
  rw [if_pos rfl]
  cases conditionHolds (m.scope here) d l.argument with
  | error cause => rfl
  | ok c =>
    show (_, m.withBlocks (b.enter (some c) d here.line)) = _
    rw [BlockStack.enter, hb]
    rfl

/-- No further branch of the block can be selected. -/
def Frame.Settled (f : Frame) : Prop := f.elseSeen = false ∧ (f.enclosed && !f.taken) = false

/-- The block is in kept text and none of its branches was selected so far. -/
def Frame.Undecided (f : Frame) : Prop :=
  f.elseSeen = false ∧ f.enclosed = true ∧ f.taken = false

variable {f : Frame} {others : List Frame}

theorem elseIf_settled (l : DirectiveLine env.marker .elseIf) (hf : f.Settled) :
    lineStep enter env chain here l.content (m.withBlocks ⟨f :: others⟩) =
      (.ok .next, m.withBlocks ⟨{ f with selected := false } :: others⟩) := by
  obtain ⟨helse, hneeds⟩ := hf
  rw [l.step rfl rfl]
  -- no condition is needed, so the argument is not looked at
  have hblocks : conditionalBlocks (m.scope here) ⟨f :: others⟩ .elseIf l.argument =
      .ok ⟨{ f with selected := false } :: others⟩ := by
    simp only [conditionalBlocks, BlockStack.needsCondition, BlockStack.elseIf,
      BlockStack.branching, BlockStack.innermost, helse, hneeds, conditionIf, bind, Except.bind,
      pure, Except.pure, mapError_ok, Bool.false_eq_true, if_false, Bool.false_and,
      Bool.or_false]
  rw [hblocks]

theorem elseIf_undecided (l : DirectiveLine env.marker .elseIf) (hf : f.Undecided) :
    lineStep enter env chain here l.content (m.withBlocks ⟨f :: others⟩) =
      match l.holds chain here m with
      | .error diagnostic => (.error diagnostic, m.withBlocks ⟨f :: others⟩)
      | .ok c => (.ok .next, m.withBlocks ⟨{ f with selected := c, taken := c } :: others⟩) := by
  obtain ⟨helse, henclosed, htaken⟩ := hf
  rw [l.step rfl rfl]
  have hblocks : conditionalBlocks (m.scope here) ⟨f :: others⟩ .elseIf l.argument =
      (conditionHolds (m.scope here) .elseIf l.argument).map fun c =>
        ⟨{ f with selected := c, taken := c } :: others⟩ := by
    simp only [conditionalBlocks, BlockStack.needsCondition, BlockStack.elseIf,
      BlockStack.branching, BlockStack.innermost, helse, henclosed, htaken, conditionIf, bind,
      Except.bind, pure, Except.pure, mapError_ok, Bool.false_eq_true, if_false, if_true,
      Bool.not_false, Bool.true_and, Bool.false_or]
    cases conditionHolds (m.scope here) .elseIf l.argument <;> rfl
  rw [hblocks]
  unfold DirectiveLine.holds
  cases conditionHolds (m.scope here) .elseIf l.argument <;> rfl

theorem otherwise_line (l : BareLine env.marker .otherwise) (hf : f.elseSeen = false) :
    lineStep enter env chain here l.content (m.withBlocks ⟨f :: others⟩) =
      (.ok .next, m.withBlocks ⟨{ f with
        selected := f.enclosed && !f.taken, taken := true, elseSeen := true } :: others⟩) := by
  rw [l.step rfl rfl]
  have hblocks : conditionalBlocks (m.scope here) ⟨f :: others⟩ .otherwise l.argument =
      .ok ⟨{ f with
        selected := f.enclosed && !f.taken, taken := true, elseSeen := true } :: others⟩ := by
    simp only [conditionalBlocks, Directive.noArgument, l.blank, BlockStack.otherwise,
      BlockStack.branching, BlockStack.innermost, hf, bind, Except.bind, pure, Except.pure,
      mapError_ok, Bool.false_eq_true, if_false, if_true]
  rw [hblocks]

theorem endIf_line (l : BareLine env.marker .endIf) :
    lineStep enter env chain here l.content (m.withBlocks ⟨f :: others⟩) =
      (.ok .next, m.withBlocks ⟨others⟩) := by
  rw [l.step rfl rfl]
  have hblocks : conditionalBlocks (m.scope here) ⟨f :: others⟩ .endIf l.argument =
      .ok ⟨others⟩ := by
    simp only [conditionalBlocks, Directive.noArgument, l.blank, BlockStack.close,
      BlockStack.innermost, bind, Except.bind, pure, Except.pure, mapError_ok, if_true]
  rw [hblocks]

end SingleLines

/-! ## Branches that are left out -/

section Inactive

variable (enter : List Position → Path → Text → Machine → Processed) (env : Environment)
  (chain : List Position) (file : Path)

-- One induction over parts, the branches of a block and lists of parts. The stack is general in all
-- three, since each block goes over its bodies with one more frame.
mutual

/-- A part in an inactive branch is gone over. -/
theorem Part.lines_inactive : ∀ (part : Part env.marker) (line : Nat) (m : Machine)
    (b : BlockStack), b.isActive = false →
      processLines enter env chain file line part.lines (m.withBlocks b) =
        (.ok .next, m.withBlocks b)
  | .line content ordinary, line, m, b, hb => by
    rw [Part.lines, processLines_cons, lineStep_inactive ordinary hb]
    rfl
  | .block d opens opening body branches, line, m, b, hb => by
    rw [Part.lines, processLines_cons, opening_inactive opens opening hb]
    show processLines enter env chain file (line + 1) _ _ = _
    -- a block that is opened here is not enclosed, and so it is settled from the start
    rw [processLines_append, linesOf_inactive body (line + 1) m _ rfl]
    exact branches.lines_settled _ m _ b.frames ⟨rfl, rfl⟩

/-- The rest of a block in which no further branch can be selected is gone over, and the block is
closed. -/
theorem Branches.lines_settled : ∀ (branches : Branches env.marker) (line : Nat) (m : Machine)
    (f : Frame) (others : List Frame), f.Settled →
      processLines enter env chain file line branches.lines (m.withBlocks ⟨f :: others⟩) =
        (.ok .next, m.withBlocks ⟨others⟩)
  | .endIf closing, line, m, f, others, _ => by
    rw [Branches.lines, processLines_cons, endIf_line closing]
    rfl
  | .otherwise l body closing, line, m, f, others, hf => by
    rw [Branches.lines, processLines_cons, otherwise_line l hf.1]
    show processLines enter env chain file (line + 1) _ _ = _
    rw [processLines_append, linesOf_inactive body (line + 1) m _ (by
      show (f.enclosed && (f.enclosed && !f.taken)) = false
      rw [hf.2, Bool.and_false])]
    show processLines enter env chain file _ _ _ = _
    rw [processLines_cons, endIf_line closing]
    rfl
  | .elseIf l body branches, line, m, f, others, hf => by
    rw [Branches.lines, processLines_cons, elseIf_settled l hf]
    show processLines enter env chain file (line + 1) _ _ = _
    rw [processLines_append, linesOf_inactive body (line + 1) m _ (by
      show (f.enclosed && false) = false
      exact Bool.and_false _)]
    exact branches.lines_settled _ m _ others hf

/-- The pass goes over any parts in an inactive branch without reading them. -/
theorem linesOf_inactive : ∀ (parts : List (Part env.marker)) (line : Nat) (m : Machine)
    (b : BlockStack), b.isActive = false →
      processLines enter env chain file line (linesOf parts) (m.withBlocks b) =
        (.ok .next, m.withBlocks b)
  | [], _, _, _, _ => rfl
  | part :: parts, line, m, b, hb => by
    rw [linesOf, processLines_append, part.lines_inactive line m b hb]
    exact linesOf_inactive parts _ m b hb

end

end Inactive

/-! ## Branches that are kept -/

/-- The first result is the second one, with the blocks `b` open. A pass that stopped or failed may
have stopped inside further blocks. -/
def Under (b : BlockStack) (r s : Processed) : Prop :=
  r.1 = s.1 ∧ ∃ c, r.2 = s.2.withBlocks c ∧ (s.1 = .ok .next → c = b)

theorem Under.next (b : BlockStack) (m : Machine) :
    Under b (.ok .next, m.withBlocks b) (.ok .next, m) :=
  ⟨rfl, b, rfl, fun _ => rfl⟩

theorem Under.error (b c : BlockStack) (d : Diagnostic) (m : Machine) :
    Under b (.error d, m.withBlocks c) (.error d, m) :=
  ⟨rfl, c, rfl, nofun⟩

/-- Going on after results that agree, in ways that agree from there, gives results that agree. -/
theorem Under.goOn {b c : BlockStack} {r s : Processed} {f g : Machine → Processed}
    (hr : Under b r s) (hf : ∀ m, Under c (f (m.withBlocks b)) (g m)) :
    Under c (goOn r f) (goOn s g) := by
  obtain ⟨r₁, r₂⟩ := r
  obtain ⟨s₁, s₂⟩ := s
  obtain ⟨hresult, d, hblocks, hnext⟩ := hr
  dsimp only at hresult hblocks hnext
  subst hresult hblocks
  -- only a pass that goes on has to be back at its blocks
  match r₁, hnext with
  | .error e, _ => exact ⟨rfl, d, rfl, nofun⟩
  | .ok .stop, _ => exact ⟨rfl, d, rfl, nofun⟩
  | .ok .next, hnext =>
    obtain rfl := hnext rfl
    exact hf s₂

section Active

variable (enter : List Position → Path → Text → Machine → Processed) (env : Environment)
  (chain : List Position) (file : Path)

mutual

/-- The pass runs a part in an active branch as it is read. -/
theorem Part.lines_active : ∀ (part : Part env.marker) (line : Nat) (m : Machine)
    (b : BlockStack), b.isActive = true →
      Under b (processLines enter env chain file line part.lines (m.withBlocks b))
        (part.run env chain file line m)
  | .line content ordinary, line, m, b, hb => by
    rw [Part.lines, processLines_cons, lineStep_active ordinary hb, Part.run]
    show Under b (goOn _ fun m => (.ok .next, m)) _
    rw [goOn_next]
    exact ⟨rfl, b, rfl, fun _ => rfl⟩
  | .block d opens opening body branches, line, m, b, hb => by
    rw [Part.lines, processLines_cons, opening_active opens opening hb, Part.run]
    match opening.holds chain ⟨file, line⟩ m with
    | .error diagnostic => exact Under.error b b diagnostic m
    -- the first body runs, and no branch after it can be selected
    | .ok true =>
      show Under b (processLines enter env chain file (line + 1) _ _) _
      rw [processLines_append, ← goOn_next (runParts env chain file body (line + 1) m)]
      refine (linesOf_active body (line + 1) m _ rfl).goOn fun m => ?_
      rw [branches.lines_settled enter env chain file _ m _ b.frames ⟨rfl, rfl⟩]
      exact Under.next b m
    -- the first body is gone over, and the branches decide
    | .ok false =>
      show Under b (processLines enter env chain file (line + 1) _ _) _
      rw [processLines_append, linesOf_inactive enter env chain file body (line + 1) m _ rfl]
      exact branches.lines_undecided _ m _ b.frames ⟨rfl, rfl, rfl⟩

/-- The rest of a block of which no branch was selected is run as it is read, and the block is
closed. -/
theorem Branches.lines_undecided : ∀ (branches : Branches env.marker) (line : Nat) (m : Machine)
    (f : Frame) (others : List Frame), f.Undecided →
      Under ⟨others⟩
        (processLines enter env chain file line branches.lines (m.withBlocks ⟨f :: others⟩))
        (branches.run env chain file line m)
  | .endIf closing, line, m, f, others, _ => by
    rw [Branches.lines, processLines_cons, endIf_line closing, Branches.run]
    exact Under.next ⟨others⟩ m
  | .otherwise l body closing, line, m, f, others, hf => by
    rw [Branches.lines, processLines_cons, otherwise_line l hf.1, Branches.run]
    show Under _ (processLines enter env chain file (line + 1) _ _) _
    rw [processLines_append, ← goOn_next (runParts env chain file body (line + 1) m)]
    refine (linesOf_active body (line + 1) m _ ?_).goOn fun m => ?_
    · show (f.enclosed && (f.enclosed && !f.taken)) = true
      rw [hf.2.1, hf.2.2]
      rfl
    · rw [processLines_cons, endIf_line closing]
      exact Under.next ⟨others⟩ m
  | .elseIf l body branches, line, m, f, others, hf => by
    rw [Branches.lines, processLines_cons, elseIf_undecided l hf, Branches.run]
    match l.holds chain ⟨file, line⟩ m with
    | .error diagnostic => exact Under.error _ _ diagnostic m
    | .ok true =>
      show Under _ (processLines enter env chain file (line + 1) _ _) _
      rw [processLines_append, ← goOn_next (runParts env chain file body (line + 1) m)]
      refine (linesOf_active body (line + 1) m _ ?_).goOn fun m => ?_
      · show (f.enclosed && true) = true
        rw [hf.2.1]
        rfl
      · rw [branches.lines_settled enter env chain file _ m { f with selected := true, taken := true }
          others ⟨hf.1, Bool.and_false _⟩]
        exact Under.next ⟨others⟩ m
    | .ok false =>
      show Under _ (processLines enter env chain file (line + 1) _ _) _
      rw [processLines_append, linesOf_inactive enter env chain file body (line + 1) m _ (by
        show (f.enclosed && false) = false
        exact Bool.and_false _)]
      exact branches.lines_undecided _ m _ others ⟨hf.1, hf.2.1, rfl⟩

/-- The pass runs parts in an active branch as they are read, and comes back to the blocks it
started with. -/
theorem linesOf_active : ∀ (parts : List (Part env.marker)) (line : Nat) (m : Machine)
    (b : BlockStack), b.isActive = true →
      Under b (processLines enter env chain file line (linesOf parts) (m.withBlocks b))
        (runParts env chain file parts line m)
  | [], _, m, b, _ => Under.next b m
  | part :: parts, line, m, b, hb => by
    rw [linesOf, processLines_append, runParts]
    exact (part.lines_active line m b hb).goOn fun m => linesOf_active parts _ m b hb

end

end Active

/-! ## Whole files -/

/-- What the reading of a structured text gives: its output or the failure, and the machine at its
end. -/
def runFile (env : Environment) (settings : Settings) (file : Path) (t : Text)
    (parts : List (Part env.marker)) (m : Machine) : Except Diagnostic Text × Machine :=
  renderResult settings t (runParts env [] file parts 1 m)

/-- At the end of a text that closed its blocks nothing is left to check. -/
theorem checkClosed_of_le {chain : List Position} {file : Path} {depth : Nat} {m : Machine}
    (h : m.state.blocks.depth ≤ depth) : checkClosed chain file depth m = (.ok .next, m) := by
  have hnone : m.state.blocks.unclosed? depth = none := if_neg (by omega)
  unfold checkClosed
  rw [hnone]

/-- The pass over the text of a file agrees with the reading of its parts. -/
theorem processText_structured (env : Environment) (bound : Nat) (chain : List Position)
    (file : Path) {t : Text} {parts : List (Part env.marker)} (h : Text.lines t = linesOf parts)
    (m : Machine) {b : BlockStack} (hb : b.isActive = true) :
    Under b (processText env (bound + 1) chain file t (m.withBlocks b))
      (runParts env chain file parts 1 m) := by
  rw [processText_succ, h, ← goOn_next (runParts env chain file parts 1 m)]
  refine (linesOf_active (processText env bound) env chain file parts 1 m b hb).goOn fun n => ?_
  show Under b (checkClosed chain file b.depth (n.withBlocks b)) _
  rw [checkClosed_of_le (show (n.withBlocks b).state.blocks.depth ≤ b.depth from Nat.le_refl _)]
  exact Under.next b n

theorem Under.renderResult {b : BlockStack} {r s : Processed} (h : Under b r s)
    (settings : Settings) (t : Text) :
    (renderResult settings t r).1 = (renderResult settings t s).1 ∧
      (renderResult settings t r).2.withBlocks .empty =
        (renderResult settings t s).2.withBlocks .empty := by
  obtain ⟨r₁, r₂⟩ := r
  obtain ⟨s₁, s₂⟩ := s
  obtain ⟨hresult, c, hblocks, -⟩ := h
  dsimp only at hresult hblocks
  subst hresult hblocks
  cases r₁ <;> exact ⟨rfl, rfl⟩

/-- **The line pass refines structured conditionals.** On a text whose lines are those of a list of
parts, for every way its lines end, and with any variables of the run, the pass gives the result of
the reading, and apart from the blocks that an early end leaves open also its machine: the three
output sections, the variables of the file and of the run, the actions and the log. -/
theorem processFile_eq_runFile (env : Environment) (settings : Settings) (file : Path) (t : Text)
    (parts : List (Part env.marker)) (h : Text.lines t = linesOf parts) (globals : Table)
    (actions : List Action) (log : List LogRecord) :
    (processFile env settings file t ⟨{}, globals, actions, log⟩).1 =
        (runFile env settings file t parts ⟨{}, globals, actions, log⟩).1 ∧
      (processFile env settings file t ⟨{}, globals, actions, log⟩).2.withBlocks .empty =
        (runFile env settings file t parts ⟨{}, globals, actions, log⟩).2.withBlocks .empty := by
  rw [processFile_eq]
  exact (processText_structured env (env.files.fileCount + 1) [] file h
    ⟨{}, globals, actions, log⟩ (show BlockStack.empty.isActive = true from rfl)).renderResult
      settings t

/-- A block whose first condition holds, and whose second branch holds a block that would fail. -/
def nestedBlocks : List (Part ['@']) :=
  [.block .ifTrue rfl ⟨"@if 1 < 2".toList, " 1 < 2".toList, by decide⟩
    [.line "kept".toList (by decide)]
    (.elseIf ⟨"@elif )".toList, " )".toList, by decide⟩
      [.block .ifDefined rfl ⟨"@ifdef ?".toList, " ?".toList, by decide⟩
        [.line "@exit".toList (by decide)]
        (.otherwise ⟨⟨"@else".toList, [], by decide⟩, rfl⟩ []
          ⟨⟨"@endif".toList, [], by decide⟩, rfl⟩)]
      (.endIf ⟨⟨"@endif ".toList, " ".toList, by decide⟩, rfl⟩)),
   .line "@exit".toList (by decide),
   .line "dropped".toList (by decide)]

/-- The pass over the text of these parts ends where it is told to and keeps one line. -/
theorem processFile_nestedBlocks :
    Text.lines (Text.join ['\n'] (linesOf nestedBlocks)) = linesOf nestedBlocks ∧
      (processFile ⟨['@'], .empty [], none⟩ {} (.ofString "a.txt")
        (Text.join ['\n'] (linesOf nestedBlocks)) ⟨{}, .empty, [], []⟩).1.toOption =
          some "kept\n".toList := by
  have hlines : Text.lines (Text.join ['\n'] (linesOf nestedBlocks)) = linesOf nestedBlocks := by
    decide +kernel
  refine ⟨hlines, ?_⟩
  rw [(processFile_eq_runFile ⟨['@'], .empty [], none⟩ {} (.ofString "a.txt") _ nestedBlocks
    hlines .empty [] []).1]
  decide +kernel

end SourcePreprocessor
