import SourcePreprocessor.Proofs.Pass.Structured

/-!
# Text that is left out does not matter

What stands in a branch that is left out is not read, so it can be anything: broken expressions,
files that do not exist, messages that would stop the run. Only what decides where the branch ends
is read there, and of that the keyword alone, not the argument. Here this is said of two texts at
once. They may differ in the lines that the pass comes to while their content cannot matter
(`Exchangeable`), and in those that it does not come to at all:

> `processFile_exchange`: the pass over both texts gives the same output or the same failure, and
> leaves the same machine.

Which lines these are is decided by the run itself, over the blocks that are open when the pass
comes to a line (`blocksAt?`). One line that may be exchanged does the same as the other
(`lineStep_exchange`), so both runs come to the next line with the same machine.
-/

namespace SourcePreprocessor

/-- The content of the two lines does not matter while these blocks are open. -/
inductive Exchangeable (marker : Text) (blocks : BlockStack) (l l' : Text) : Prop
  /-- In a branch that is left out, each of them is text or a known directive that does not belong
  to a conditional. -/
  | inert (left : blocks.isActive = false) (first : (lineKind marker l).isInert = true)
    (second : (lineKind marker l').isInert = true)
  /-- In a branch that is left out, both open a block with the same directive. -/
  | opening (left : blocks.isActive = false) (d : Directive) (opens : d.opensBlock = true)
    (argument argument' : Text) (first : lineKind marker l = .directive d argument)
    (second : lineKind marker l' = .directive d argument')
  /-- Both go on to a further branch, whose condition is not needed. -/
  | elseIf (needless : blocks.needsCondition .elseIf = .ok false) (argument argument' : Text)
    (first : lineKind marker l = .directive .elseIf argument)
    (second : lineKind marker l' = .directive .elseIf argument')

/-- A further branch of a block whose condition is not needed cannot be selected. -/
theorem settled_of_needsCondition {b : BlockStack} (h : b.needsCondition .elseIf = .ok false) :
    ∃ f others, b = ⟨f :: others⟩ ∧ f.Settled := by
  obtain ⟨_ | ⟨f, others⟩⟩ := b
  · nomatch h
  · obtain ⟨⟨frame, rest⟩, hbranching, hneeds⟩ := bind_eq_ok_iff.1 h
    change (if f.elseSeen = true then _ else _) = _ at hbranching
    by_cases helse : f.elseSeen = true
    · rw [if_pos helse] at hbranching
      nomatch hbranching
    · rw [if_neg helse] at hbranching
      obtain ⟨rfl, rfl⟩ := Prod.mk.inj (Except.ok.inj hbranching)
      exact ⟨f, others, rfl, by simpa using helse, Except.ok.inj hneeds⟩

section Lines

variable (enter : List Position → Path → Text → Machine → Processed) {env : Environment}
  (chain : List Position)

/-- Two lines whose content does not matter do the same. -/
theorem lineStep_exchange {here : Position} {l l' : Text} {m : Machine}
    (h : Exchangeable env.marker m.state.blocks l l') :
    lineStep enter env chain here l m = lineStep enter env chain here l' m := by
  cases h with
  | inert left first second =>
    rw [lineStep_inert enter env chain first left, lineStep_inert enter env chain second left]
  -- the other lines change the blocks, in a way that their arguments have no part in
  | opening left d opens argument argument' first second =>
    have hfirst : lineStep enter env chain here l (m.withBlocks m.state.blocks) = _ :=
      opening_inactive opens ⟨l, argument, first⟩ left
    have hsecond : lineStep enter env chain here l' (m.withBlocks m.state.blocks) = _ :=
      opening_inactive opens ⟨l', argument', second⟩ left
    exact hfirst.trans hsecond.symm
  | elseIf needless argument argument' first second =>
    obtain ⟨f, others, hblocks, hsettled⟩ := settled_of_needsCondition needless
    have hfirst : lineStep enter env chain here l (m.withBlocks ⟨f :: others⟩) = _ :=
      elseIf_settled ⟨l, argument, first⟩ hsettled
    have hsecond : lineStep enter env chain here l' (m.withBlocks ⟨f :: others⟩) = _ :=
      elseIf_settled ⟨l', argument', second⟩ hsettled
    rw [← hblocks] at hfirst hsecond
    exact hfirst.trans hsecond.symm

/-- The blocks that are open when the pass over lines comes to the one after the first `n`, if it
comes there. -/
def blocksAfter? (env : Environment) (file : Path) (line : Nat) (contents : List Text) (m : Machine)
    (n : Nat) : Option BlockStack :=
  match processLines enter env chain file line (contents.take n) m with
  | (.ok .next, after) => some after.state.blocks
  | _ => none

/-- What comes after a line that goes on comes after the lines that follow it. -/
theorem blocksAfter?_succ {file : Path} {line : Nat} {l : Text} {contents : List Text}
    {m after : Machine} (h : lineStep enter env chain ⟨file, line⟩ l m = (.ok .next, after))
    (n : Nat) :
    blocksAfter? enter chain env file line (l :: contents) m (n + 1) =
      blocksAfter? enter chain env file (line + 1) contents after n := by
  unfold blocksAfter?
  rw [List.take_succ_cons, processLines_cons, h]
  rfl

/-- Two lists of lines do the same when they differ only in lines that the pass does not come to and
in lines whose content does not matter when it comes to them. -/
theorem processLines_exchange {file : Path} (contents : List Text) :
    ∀ (contents' : List Text) (line : Nat) (m : Machine), contents.length = contents'.length →
      (∀ (n : Nat) (l l' : Text), contents[n]? = some l → contents'[n]? = some l' → l ≠ l' →
        ∀ b, blocksAfter? enter chain env file line contents m n = some b →
          Exchangeable env.marker b l l') →
      processLines enter env chain file line contents m =
        processLines enter env chain file line contents' m := by
  induction contents with
  | nil =>
    intro contents' line m hlength h
    rw [List.eq_nil_of_length_eq_zero hlength.symm]
  | cons l contents ih =>
    intro contents' line m hlength h
    obtain ⟨l', contents', rfl⟩ := List.exists_cons_of_length_eq_add_one hlength.symm
    have hline : lineStep enter env chain ⟨file, line⟩ l m =
        lineStep enter env chain ⟨file, line⟩ l' m := by
      by_cases heq : l = l'
      · rw [heq]
      · exact lineStep_exchange enter chain (h 0 l l' rfl rfl heq m.state.blocks rfl)
    rw [processLines_cons, processLines_cons, ← hline]
    -- the lines after this one matter only when the pass goes on
    match hstep : lineStep enter env chain ⟨file, line⟩ l m with
    | (.error d, after) => rfl
    | (.ok .stop, after) => rfl
    | (.ok .next, after) =>
      refine ih contents' (line + 1) after (Nat.succ.inj hlength) ?_
      intro n k k' hk hk' hne b hb
      refine h (n + 1) k k' hk hk' hne b ?_
      rw [blocksAfter?_succ enter chain hstep]
      exact hb

end Lines

/-! ## Whole files -/

/-- The blocks that are open when the pass over a file comes to the line after the first `n`, if it
comes there. -/
def blocksAt? (env : Environment) (file : Path) (t : Text) (m : Machine) (n : Nat) :
    Option BlockStack :=
  blocksAfter? (processText env (env.files.fileCount + 1)) [] env file 1 (Text.lines t) m n

theorem lastTerminator_eq (t : Text) :
    lastTerminator t = ((Text.splitLines t).map (·.terminator)).getLast?.getD .none := by
  unfold lastTerminator
  rw [List.getLast?_map]
  cases (Text.splitLines t).getLast? <;> rfl

/-- **Text that is left out does not matter.** Two texts with as many lines, which end alike, may
differ in lines whose content does not matter when the pass comes to them, and in lines that it does
not come to. Then the pass over both gives the same output or the same failure, and it leaves the
same machine: the variables of the run, the actions that the extension received and the log. -/
theorem processFile_exchange (env : Environment) (settings : Settings) (file : Path) (t t' : Text)
    (m : Machine)
    (hends : (Text.splitLines t).map (·.terminator) = (Text.splitLines t').map (·.terminator))
    (hlines : ∀ (n : Nat) (l l' : Text), (Text.lines t)[n]? = some l →
      (Text.lines t')[n]? = some l' → l ≠ l' →
        ∀ b, blocksAt? env file t m n = some b → Exchangeable env.marker b l l') :
    processFile env settings file t m = processFile env settings file t' m := by
  have hlength : (Text.lines t).length = (Text.lines t').length := by
    have hcount := congrArg List.length hends
    rw [List.length_map, List.length_map] at hcount
    rw [Text.lines, Text.lines, List.length_map, List.length_map, hcount]
  have htext : processText env (includeBound env.files) [] file t m =
      processText env (includeBound env.files) [] file t' m := by
    rw [includeBound, processText_succ, processText_succ]
    rw [processLines_exchange _ _ (Text.lines t) (Text.lines t') 1 m hlength hlines]
  have hlast : lastTerminator t = lastTerminator t' := by
    rw [lastTerminator_eq, lastTerminator_eq, hends]
  rw [processFile_eq, processFile_eq, htext]
  unfold renderResult renderOutput
  rw [hlast]

/-- A block whose first branch is kept, and whose other branch could not be read. -/
def brokenBranch : List Text :=
  ["@if true".toList, "kept".toList, "@elif )".toList, "@error stop".toList, "@ifdef ?".toList,
    "@endif".toList, "@endif".toList]

/-- The block with other text in the branch that is left out. -/
def otherBranch : List Text :=
  ["@if true".toList, "kept".toList, "@elif 1 +".toList, " text".toList, "@ifdef".toList,
    "@endif".toList, "@endif".toList]

/-- The pass over these lines. -/
def passOver (lines : List Text) : Except Diagnostic Text × Machine :=
  processFile ⟨['@'], .empty [], none⟩ {} ⟨['a']⟩ (Text.join ['\n'] lines) ⟨{}, .empty, [], []⟩

/-- The blocks that are open when the pass over the first of them comes to a line. -/
def blocksInBroken (n : Nat) : Option BlockStack :=
  blocksAt? ⟨['@'], .empty [], none⟩ ⟨['a']⟩ (Text.join ['\n'] brokenBranch)
    ⟨{}, .empty, [], []⟩ n

/-- A condition that is not needed, a message that would stop the run and a block without a name
make no difference in a branch that is left out. -/
theorem passOver_brokenBranch :
    passOver brokenBranch = passOver otherBranch ∧
      (passOver brokenBranch).1.toOption = some "kept\n".toList := by
  have hfirst : Text.lines (Text.join ['\n'] brokenBranch) = brokenBranch := by decide +kernel
  have hsecond : Text.lines (Text.join ['\n'] otherBranch) = otherBranch := by decide +kernel
  -- the further branch starts in kept text, and what follows it is left out
  have htwo : blocksInBroken 2 = some ⟨[⟨true, true, true, false, .ifTrue, 1⟩]⟩ := by
    decide +kernel
  have hthree : blocksInBroken 3 = some ⟨[⟨false, true, true, false, .ifTrue, 1⟩]⟩ := by
    decide +kernel
  have hfour : blocksInBroken 4 = some ⟨[⟨false, true, true, false, .ifTrue, 1⟩]⟩ := by
    decide +kernel
  refine ⟨processFile_exchange _ _ _ _ _ _ (by decide +kernel) ?_, by decide +kernel⟩
  intro n l l' hl hl' hne b hb
  rw [hfirst] at hl
  rw [hsecond] at hl'
  rcases n with _ | _ | _ | _ | _ | _ | _ | n
  · obtain rfl := Option.some.inj hl
    exact absurd (Option.some.inj hl') hne
  · obtain rfl := Option.some.inj hl
    exact absurd (Option.some.inj hl') hne
  · obtain rfl := Option.some.inj (htwo.symm.trans hb)
    obtain rfl := Option.some.inj hl
    obtain rfl := Option.some.inj hl'
    exact .elseIf rfl " )".toList " 1 +".toList (by decide) (by decide)
  · obtain rfl := Option.some.inj (hthree.symm.trans hb)
    obtain rfl := Option.some.inj hl
    obtain rfl := Option.some.inj hl'
    exact .inert rfl (by decide) (by decide)
  · obtain rfl := Option.some.inj (hfour.symm.trans hb)
    obtain rfl := Option.some.inj hl
    obtain rfl := Option.some.inj hl'
    exact .opening rfl .ifDefined rfl " ?".toList [] (by decide) (by decide)
  · obtain rfl := Option.some.inj hl
    exact absurd (Option.some.inj hl') hne
  · obtain rfl := Option.some.inj hl
    exact absurd (Option.some.inj hl') hne
  · nomatch hl

end SourcePreprocessor
