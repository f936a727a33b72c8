import SourcePreprocessor.Proofs.Pass.Step

/-!
# Included files and the blocks around them

An included file is processed on the stack of the file that includes it, and at its end no more
blocks may be open than at its start. That check looks in one direction only. A text that opens and
closes its own blocks leaves those around it alone, but an `else`, `elif` or `endif` that stands in
the included file without its `if` goes to the block around the include, and the check at the end
does not see it.

The measure of a text is therefore the pass over it *alone*, with no block open around it. There
such a directive has nothing to go to, and the pass fails at it (`LacksBlock`). This is the only way
in which the blocks below can be noticed:

> `processText_lifts`: over any active blocks, a text does what it does alone and leaves those
> blocks as they are, unless alone it lacks a block.

From it follows what an include that goes on has done to the blocks of its file, exactly
(`include_blocks_iff`), and that the blocks are not safe from it (`includePart_else`).
-/

namespace SourcePreprocessor

namespace BlockStack

/-- The open blocks with others around them. -/
def atop (b : BlockStack) (below : List Frame) : BlockStack := ⟨b.frames ++ below⟩

variable {below : List Frame}

theorem depth_atop (b : BlockStack) : (b.atop below).depth = b.depth + below.length :=
  List.length_append

theorem isActive_atop (hbelow : isActive ⟨below⟩ = true) (b : BlockStack) :
    (b.atop below).isActive = b.isActive := by
  obtain ⟨_ | ⟨f, fs⟩⟩ := b
  · exact hbelow
  · rfl

theorem enter_atop (hbelow : isActive ⟨below⟩ = true) (b : BlockStack) (condition : Option Bool)
    (d : Directive) (line : Nat) :
    (b.atop below).enter condition d line = (b.enter condition d line).atop below := by
  unfold enter
  rw [isActive_atop hbelow]
  rfl

/-- More blocks than at the start are open above the same blocks around them. -/
theorem unclosed?_atop (b : BlockStack) (depth : Nat) :
    (b.atop below).unclosed? (depth + below.length) = b.unclosed? depth := by
  unfold unclosed?
  rw [depth_atop]
  by_cases h : depth < b.depth
  · rw [if_pos h, if_pos (by omega)]
    obtain ⟨_ | ⟨f, fs⟩⟩ := b
    · exact absurd h (Nat.not_lt_zero _)
    · rfl
  · rw [if_neg h, if_neg (by omega)]

/-! A directive of a block sees the innermost block only. -/

variable (f : Frame) (fs : List Frame) (d : Directive)

theorem branching_atop :
    (atop ⟨f :: fs⟩ below).branching d =
      (branching ⟨f :: fs⟩ d).map fun (frame, others) => (frame, others ++ below) := by
  show (if f.elseSeen = true then _ else _) = Except.map _ (if f.elseSeen = true then _ else _)
  by_cases h : f.elseSeen = true
  · rw [if_pos h, if_pos h]
    rfl
  · rw [if_neg h, if_neg h]
    rfl

theorem needsCondition_atop :
    (atop ⟨f :: fs⟩ below).needsCondition d = needsCondition ⟨f :: fs⟩ d := by
  unfold needsCondition
  rw [branching_atop]
  cases branching ⟨f :: fs⟩ d <;> rfl

theorem elseIf_atop (condition : Option Bool) :
    (atop ⟨f :: fs⟩ below).elseIf condition d =
      (elseIf ⟨f :: fs⟩ condition d).map (·.atop below) := by
  unfold elseIf
  rw [branching_atop]
  cases branching ⟨f :: fs⟩ d <;> rfl

theorem otherwise_atop :
    (atop ⟨f :: fs⟩ below).otherwise d = (otherwise ⟨f :: fs⟩ d).map (·.atop below) := by
  unfold otherwise
  rw [branching_atop]
  cases branching ⟨f :: fs⟩ d <;> rfl

end BlockStack

/-- A conditional directive lacks an open block, or it does the same over other blocks. -/
theorem conditionalBlocks_atop {below : List Frame}
    (hbelow : BlockStack.isActive ⟨below⟩ = true) (scope : Scope) (b : BlockStack) (d : Directive)
    (argument : Text) :
    conditionalBlocks scope b d argument = .error (.structural (.withoutIf d)) ∨
      conditionalBlocks scope (b.atop below) d argument =
        (conditionalBlocks scope b d argument).map (·.atop below) := by
  obtain ⟨frames⟩ := b
  cases d with
  | elseIf =>
    cases frames with
    | nil => exact .inl rfl
    | cons f fs =>
      right
      simp only [conditionalBlocks, BlockStack.needsCondition_atop, BlockStack.elseIf_atop]
      cases BlockStack.needsCondition ⟨f :: fs⟩ .elseIf with
      | error e => rfl
      | ok wanted =>
        show (conditionIf wanted scope .elseIf argument >>= _) =
          Except.map _ (conditionIf wanted scope .elseIf argument >>= _)
        cases conditionIf wanted scope .elseIf argument with
        | error cause => rfl
        | ok condition =>
          show Except.mapError _ (Except.map _ (BlockStack.elseIf ⟨f :: fs⟩ condition .elseIf)) =
            Except.map _ (Except.mapError _ (BlockStack.elseIf ⟨f :: fs⟩ condition .elseIf))
          cases BlockStack.elseIf ⟨f :: fs⟩ condition .elseIf <;> rfl
  | otherwise =>
    simp only [conditionalBlocks]
    cases Directive.otherwise.noArgument argument with
    | error e => exact .inr rfl
    | ok u =>
      cases frames with
      | nil => exact .inl rfl
      | cons f fs =>
        right
        rw [BlockStack.otherwise_atop]
        cases BlockStack.otherwise ⟨f :: fs⟩ .otherwise <;> rfl
  | endIf =>
    simp only [conditionalBlocks]
    cases Directive.endIf.noArgument argument with
    | error e => exact .inr rfl
    | ok u =>
      cases frames with
      | nil => exact .inl rfl
      | cons f fs => exact .inr rfl
  | _ =>
    right
    simp only [conditionalBlocks, BlockStack.isActive_atop hbelow, BlockStack.enter_atop hbelow]
    cases conditionIf _ _ _ _ <;> rfl

/-! ## Runs over other blocks -/

/-- The machine with other blocks around its own. -/
def Machine.atop (m : Machine) (below : List Frame) : Machine :=
  m.withBlocks (m.state.blocks.atop below)

/-- The pass failed at a directive that needs an open block where none is open. -/
def LacksBlock (r : Processed) : Prop :=
  ∃ diagnostic d, r.1 = .error diagnostic ∧ diagnostic.cause = .structural (.withoutIf d)

/-- The second result is the first one over other blocks, unless the first lacks a block. -/
def Lifts (below : List Frame) (alone full : Processed) : Prop :=
  LacksBlock alone ∨ full = (alone.1, alone.2.atop below)

theorem Lifts.goOn {below : List Frame} {alone full : Processed} {f g : Machine → Processed}
    (h : Lifts below alone full) (hf : ∀ m, Lifts below (f m) (g (m.atop below))) :
    Lifts below (goOn alone f) (goOn full g) := by
  obtain ⟨result, m⟩ := alone
  rcases h with ⟨diagnostic, d, herror, hcause⟩ | rfl
  · obtain rfl : result = .error diagnostic := herror
    exact .inl ⟨diagnostic, d, rfl, hcause⟩
  · match result with
    | .error diagnostic => exact .inr rfl
    | .ok .stop => exact .inr rfl
    | .ok .next => exact hf m

section Lifting

variable {below : List Frame} (hbelow : BlockStack.isActive ⟨below⟩ = true)
  {enter : List Position → Path → Text → Machine → Processed}
  (henter : ∀ chain file t m, Lifts below (enter chain file t m) (enter chain file t (m.atop below)))
  (env : Environment)

include hbelow henter

/-- A line that is no conditional directive does the same over other blocks, if the files that it
may include do. -/
theorem processLine_lifts (chain : List Position) (here : Position) {content : Text}
    (hk : (lineKind env.marker content).isConditional = false) (m : Machine) :
    Lifts below (processLine enter env chain here content m)
      (processLine enter env chain here content (m.atop below)) := by
  have hactive : (m.state.blocks.atop below).isActive = m.state.blocks.isActive :=
    BlockStack.isActive_atop hbelow m.state.blocks
  have hsame : lineEffect env chain here (m.atop below) content =
      lineEffect env chain here m content := lineEffect_withBlocks hk hactive
  cases he : lineEffect env chain here m content with
  | error fault =>
    right
    unfold processLine
    rw [hsame, he]
  | ok e =>
    rcases lineEffect_cases hk he with hkeep | ⟨-, -, file, t, rfl⟩
    -- the blocks are not touched, so those around them are not either
    · right
      have hown := processLine_of_keepsBlocks enter enter he he hkeep
      have hatop := processLine_of_keepsBlocks enter enter he (hsame.trans he) hkeep
      have hblocks : (processLine enter env chain here content m).2.state.blocks =
          m.state.blocks := by
        rw [show processLine enter env chain here content m = _ from hown]
        rfl
      unfold Machine.atop at hatop ⊢
      rw [hatop, hblocks]
    -- the file is entered with all blocks, and processing it is what lifts
    · unfold processLine
      rw [hsame, he]
      exact henter (chain ++ [here]) file t
        (m.note .detail (here.string ++ ": including " ++ file.string))

/-- A line does the same over other blocks, unless it lacks a block. -/
theorem lineStep_lifts (chain : List Position) (here : Position) (content : Text) (m : Machine) :
    Lifts below (lineStep enter env chain here content m)
      (lineStep enter env chain here content (m.atop below)) := by
  by_cases hk : (lineKind env.marker content).isConditional = true
  · match hkind : lineKind env.marker content with
    | .plain => rw [hkind] at hk; nomatch hk
    | .unknown rest => rw [hkind] at hk; nomatch hk
    | .directive d argument =>
      rw [hkind] at hk
      simp only [LineKind.isConditional, Bool.and_eq_true, decide_eq_true_eq] at hk
      rw [lineStep_conditional enter env chain hkind hk.1 hk.2,
        lineStep_conditional enter env chain hkind hk.1 hk.2]
      rcases conditionalBlocks_atop hbelow (m.scope here) m.state.blocks d argument with hlack | hsame
      · rw [hlack]
        exact .inl ⟨_, d, rfl, rfl⟩
      · right
        have hatop : conditionalBlocks ((m.atop below).scope here) (m.atop below).state.blocks d
          argument = _ := hsame
        rw [hatop]
        cases conditionalBlocks (m.scope here) m.state.blocks d argument <;> rfl
  · have hline := processLine_lifts hbelow henter env chain here (by simpa using hk) m
    unfold lineStep
    rcases hline with ⟨diagnostic, d, herror, hcause⟩ | heq
    · left
      refine ⟨diagnostic, d, ?_, hcause⟩
      revert herror
      obtain ⟨result, after⟩ := processLine enter env chain here content m
      rintro (rfl : result = .error diagnostic)
      rfl
    · right
      rw [heq]
      obtain ⟨_ | _ | _, _⟩ := processLine enter env chain here content m <;> rfl

theorem processLines_lifts (chain : List Position) (file : Path) (contents : List Text) :
    ∀ (line : Nat) (m : Machine), Lifts below (processLines enter env chain file line contents m)
      (processLines enter env chain file line contents (m.atop below)) := by
  induction contents with
  | nil => exact fun line m => .inr rfl
  | cons content contents ih =>
    intro line m
    rw [processLines_cons, processLines_cons]
    exact (lineStep_lifts hbelow henter env chain ⟨file, line⟩ content m).goOn (ih (line + 1))

end Lifting

theorem checkClosed_lifts {below : List Frame} (chain : List Position) (file : Path) (depth : Nat)
    (m : Machine) :
    Lifts below (checkClosed chain file depth m)
      (checkClosed chain file (depth + below.length) (m.atop below)) := by
  right
  unfold checkClosed
  rw [show (m.atop below).state.blocks = m.state.blocks.atop below from rfl,
    BlockStack.unclosed?_atop]
  cases m.state.blocks.unclosed? depth <;> rfl

/-- Over any active blocks, a text does what it does alone, unless alone it lacks a block. -/
theorem processText_lifts {below : List Frame} (hbelow : BlockStack.isActive ⟨below⟩ = true)
    (env : Environment) (bound : Nat) :
    ∀ (chain : List Position) (file : Path) (t : Text) (m : Machine),
      Lifts below (processText env bound chain file t m)
        (processText env bound chain file t (m.atop below)) := by
  -- the bound on the nesting of includes gives what the included files do
  induction bound with
  | zero => exact fun chain file t m => .inr rfl
  | succ bound ih =>
    intro chain file t m
    rw [processText_succ, processText_succ]
    refine (processLines_lifts hbelow ih env chain file (Text.lines t) 1 m).goOn fun after => ?_
    rw [show (m.atop below).state.blocks.depth = m.state.blocks.depth + below.length from
      BlockStack.depth_atop m.state.blocks]
    exact checkClosed_lifts chain file m.state.blocks.depth after

/-- A text that goes on to what follows it leaves no more blocks open than there were. -/
theorem depth_le_of_processText {env : Environment} {bound : Nat} {chain : List Position}
    {file : Path} {t : Text} {m after : Machine}
    (h : processText env bound chain file t m = (.ok .next, after)) :
    after.state.blocks.depth ≤ m.state.blocks.depth := by
  cases bound with
  | zero => nomatch h
  | succ bound =>
    rw [processText_succ] at h
    revert h
    obtain ⟨_ | _ | _, last⟩ :=
      processLines (processText env bound) env chain file 1 (Text.lines t) m
    · nofun
    · intro h
      change checkClosed chain file m.state.blocks.depth last = _ at h
      unfold checkClosed BlockStack.unclosed? at h
      -- the check fails when the stack is deeper, and nothing happens to it otherwise
      by_cases hdepth : m.state.blocks.depth < last.state.blocks.depth
      · rw [if_pos hdepth] at h
        obtain ⟨f, fs, hframes⟩ := List.exists_cons_of_length_pos (Nat.zero_lt_of_lt hdepth)
        rw [hframes] at h
        nomatch h
      · rw [if_neg hdepth] at h
        obtain rfl : last = after := congrArg Prod.snd h
        omega
    · nofun

/-! ## Includes -/

/-- What the pass over an included text gives with no block open around it. -/
def includedAlone (env : Environment) (bound : Nat) (chain : List Position) (here : Position)
    (file : Path) (t : Text) (m : Machine) : Processed :=
  processText env bound (chain ++ [here]) file t
    ((m.note .detail (here.string ++ ": including " ++ file.string)).withBlocks .empty)

/-- An include does what its text does alone, and leaves the blocks around it as they are, unless
alone the text lacks a block. -/
theorem include_lifts {env : Environment} {bound : Nat} {chain : List Position} {here : Position}
    {content : Text} {m : Machine} {file : Path} {t : Text}
    (hinclude : lineEffect env chain here m content = .ok (.enter file t)) :
    Lifts m.state.blocks.frames (includedAlone env bound chain here file t m)
      (processLine (processText env bound) env chain here content m) := by
  have hk := isConditional_of_enter hinclude
  have hactive : m.state.blocks.isActive = true := by
    rcases lineEffect_cases hk hinclude with hkeep | ⟨-, hactive, -⟩
    · nomatch hkeep
    · exact hactive
  have hlifts := processText_lifts hactive env bound (chain ++ [here]) file t
    ((m.note .detail (here.string ++ ": including " ++ file.string)).withBlocks .empty)
  rw [processLine_enter hinclude]
  exact hlifts

/-- **What an include that goes on has done to the blocks of its file.** Afterwards no more of them
are open than before. The included text closes all its blocks on its own and the blocks of the file
are as before, every one of them, exactly when the text does not lack a block: when no `elif`,
`else` or `endif` of it, or of what it includes in turn, is met outside of its own blocks. -/
theorem include_blocks_iff (env : Environment) (bound : Nat) (chain : List Position)
    (here : Position) (content : Text) (m after : Machine) (file : Path) (t : Text)
    (hinclude : lineEffect env chain here m content = .ok (.enter file t))
    (hnext : processLine (processText env bound) env chain here content m = (.ok .next, after)) :
    after.state.blocks.depth ≤ m.state.blocks.depth ∧
      ((includedAlone env bound chain here file t m).1 = .ok .next ∧
          after.state.blocks = m.state.blocks ↔
        ¬ LacksBlock (includedAlone env bound chain here file t m)) := by
  refine ⟨?_, ?_, ?_⟩
  · rw [processLine_enter hinclude] at hnext
    have hdepth := depth_le_of_processText hnext
    exact hdepth
  · rintro ⟨hok, -⟩ ⟨diagnostic, d, herror, -⟩
    rw [hok] at herror
    nomatch herror
  · intro hlacks
    have hlifts : Lifts m.state.blocks.frames (includedAlone env bound chain here file t m)
        (processLine (processText env bound) env chain here content m) := include_lifts hinclude
    rcases hlifts with h | h
    · exact absurd h hlacks
    · rw [hnext] at h
      have hok : (includedAlone env bound chain here file t m).1 = .ok .next :=
        (congrArg Prod.fst h).symm
      have hafter : after = (includedAlone env bound chain here file t m).2.atop
        m.state.blocks.frames := congrArg Prod.snd h
      -- alone, the text started with no block, so it ends with none above those of the file
      have hdepth : (includedAlone env bound chain here file t m).2.state.blocks.depth ≤ 0 :=
        depth_le_of_processText (Prod.ext hok rfl)
      have hempty : (includedAlone env bound chain here file t m).2.state.blocks.frames = [] :=
        List.eq_nil_of_length_eq_zero (Nat.le_zero.1 hdepth)
      refine ⟨hok, ?_⟩
      rw [hafter]
      show BlockStack.mk (_ ++ m.state.blocks.frames) = _
      rw [hempty]
      rfl

/-! ## A file and its part -/

/-- The machine at the start of a run that defines nothing. -/
def freshMachine : Machine := ⟨{}, .empty, [], []⟩

/-- There are no files to include. -/
def noFiles : Environment := ⟨['@'], .empty [], none⟩

/-- The only file is `part`, which holds the given text. -/
def withPart (t : Text) : Environment :=
  ⟨['@'], ⟨[(["part".toList], .file (.text t))], []⟩, none⟩

/-- The machine in the branch that the first line of a file opens. -/
def insideBranch (t : Text) : Machine :=
  (processLine (processText (withPart t) 2) (withPart t) [] ⟨⟨"main".toList⟩, 1⟩
    "@if true".toList ⟨{}, .empty, [], []⟩).2

/-- What the second line makes of that machine when it includes `part`. -/
def includePart (t : Text) : Processed :=
  processLine (processText (withPart t) 2) (withPart t) [] ⟨⟨"main".toList⟩, 2⟩
    "@include \"part\"".toList (insideBranch t)

/-- The file that an effect enters, and its text. -/
def Effect.entered? : Effect → Option (Path × Text)
  | .enter file t => some (file, t)
  | _ => none

theorem eq_enter_of_entered? {r : Except Fault Effect} {file : Path} {t : Text}
    (h : r.toOption.bind Effect.entered? = some (file, t)) : r = .ok (.enter file t) := by
  match r, h with
  | .ok (.enter _ _), h => cases h; rfl

theorem eq_next_of_toOption {r : Processed} (h : r.1.toOption = some .next) :
    r = (.ok .next, r.2) := eq_ok_snd_of_toOption h

theorem not_lacksBlock_of_toOption {r : Processed} (h : r.1.toOption = some .next) :
    ¬ LacksBlock r := by
  rintro ⟨diagnostic, d, herror, -⟩
  rw [herror] at h
  nomatch h

/-- A text with a block of its own leaves the branch around its include as it is. -/
theorem includePart_block :
    ∃ after, includePart "@if false\n@endif".toList = (.ok .next, after) ∧
      after.state.blocks = (insideBranch "@if false\n@endif".toList).state.blocks := by
  have hinclude : (lineEffect (withPart "@if false\n@endif".toList) [] ⟨⟨"main".toList⟩, 2⟩
      (insideBranch "@if false\n@endif".toList) "@include \"part\"".toList).toOption.bind
        Effect.entered? = some (⟨"part".toList⟩, "@if false\n@endif".toList) := by decide +kernel
  have hnext : (includePart "@if false\n@endif".toList).1.toOption = some .next := by
    decide +kernel
  have halone : (includedAlone (withPart "@if false\n@endif".toList) 2 [] ⟨⟨"main".toList⟩, 2⟩
      ⟨"part".toList⟩ "@if false\n@endif".toList
        (insideBranch "@if false\n@endif".toList)).1.toOption = some .next := by decide +kernel
  replace hinclude := eq_enter_of_entered? hinclude
  replace hnext := eq_next_of_toOption hnext
  replace halone := not_lacksBlock_of_toOption halone
  have hblocks := include_blocks_iff _ 2 _ _ _ _ _ _ _ hinclude hnext
  exact ⟨_, hnext, (hblocks.2.2 halone).2⟩

/-- **The blocks of a file are not safe from the files it includes.** An `else` that is all of an
included text passes, and the branch around the include is left from there on. -/
theorem includePart_else :
    ∃ after, includePart "@else".toList = (.ok .next, after) ∧
      (insideBranch "@else".toList).state.blocks.isActive = true ∧
      after.state.blocks.isActive = false ∧
      after.state.blocks ≠ (insideBranch "@else".toList).state.blocks := by
  have hnext : (includePart "@else".toList).1.toOption = some .next := by decide +kernel
  have hactive : (insideBranch "@else".toList).state.blocks.isActive = true := by decide +kernel
  have hafter : (includePart "@else".toList).2.state.blocks.isActive = false := by decide +kernel
  refine ⟨_, eq_next_of_toOption hnext, hactive, hafter, fun hsame => ?_⟩
  rw [hsame, hactive] at hafter
  nomatch hafter

end SourcePreprocessor
