import SourcePreprocessor.Proofs.Pass.ErrorPlace
import SourcePreprocessor.Proofs.Pass.Failure

/-!
# The lines that a failure was included from

A diagnostic names the lines that included its file. They are the way on which the pass came to the
file, and nothing else: files that were included earlier and have come to their ends leave no trace.

> `Visits.ledTo`: on the way to a text, every line is an include that was carried out and that led to
> the next file;
> `processFile_includedFrom`: the lines of a diagnostic are that way, and its line and fragment are
> those of the file at its end.
-/

namespace SourcePreprocessor

section Places

variable (env : Environment) (file : Path) (t : Text) (m : Machine)

/-- The line of a file that was included from the lines of a chain: the first text is the one that
the pass was given, and every other one stands in the tree. -/
def LineOf (chain : List Position) (p : Position) (content : Text) : Prop :=
  ∃ u n, (if chain = [] then p.file = file ∧ u = t else env.files.readText p.file = .ok u) ∧
    (Text.lines u)[n]? = some content ∧ p.line = n + 1

/-- The pass came to the line, which is an include, and carried it out: it went into the text of the
target, which is the value of the argument seen from the directory of the file. -/
def LedTo (chain : List Position) (p : Position) (target : Path) : Prop :=
  ∃ content later mid argument e name u, LineOf env file t chain p content ∧
    AtLines env file t m chain p.file p.line (content :: later) mid ∧
    Entering env chain p mid content argument e name u ∧ target = includeTarget p.file name

/-- The pass came to the line, through the lines of the chain, and there it failed with the
diagnostic, which names the line and quotes it. -/
def FailsOnLine (chain : List Position) (f : Path) (d : Diagnostic) : Prop :=
  ∃ line content later mid, LineOf env file t chain ⟨f, line⟩ content ∧
    AtLines env file t m chain f line (content :: later) mid ∧
    (∀ target u, lineEffect env chain ⟨f, line⟩ mid content ≠ .ok (.enter target u)) ∧
    (processLine skipFile env chain ⟨f, line⟩ content mid).1 = .error d ∧
    d.line = some line ∧ d.fragment = some (Text.trim content)

/-- The pass went through all lines of a text that it came to through the lines of the chain, and a
block of the text was still open. -/
def LeavesUnclosed (chain : List Position) (f : Path) (d : Diagnostic) : Prop :=
  ∃ u begun mid frame, Visits env file t m chain f u begun ∧
    LinesEnd env chain f 1 (Text.lines u) begun (.ok .next, mid) ∧
    mid.state.blocks.unclosed? begun.state.blocks.depth = some frame ∧
    d.cause = .structural (.unclosedBlock frame.openedBy frame.openedAt)

end Places

variable {env : Environment} {file : Path} {t : Text} {m : Machine} {chain : List Position}
  {f : Path} {d : Diagnostic}

/-! ## The way to a text -/

/-- The way starts at the file of the pass. -/
theorem Visits.head?_chainFiles {u : Text} {begun : Machine}
    (h : Visits env file t m chain f u begun) : (chainFiles chain f).head? = some file := by
  induction h with
  | start => rfl
  | enter _ _ _ _ ih => rw [Linked.chainFiles_concat, List.head?_append, ih, Option.some_or]

theorem AtLines.lineOf {line : Nat} {content : Text} {later : List Text} {mid : Machine}
    (h : AtLines env file t m chain f line (content :: later) mid) :
    LineOf env file t chain ⟨f, line⟩ content := by
  obtain ⟨u, begun, n, hvisits, hget, hline⟩ := h.visited
  refine ⟨u, n, ?_, hget, hline⟩
  cases hvisits with
  | start =>
    rw [if_pos rfl]
    exact ⟨rfl, rfl⟩
  | enter _ _ _ effect =>
    rw [if_neg (List.append_ne_nil_of_right_ne_nil _ (List.cons_ne_nil _ _))]
    exact (entered_of_lineEffect effect).2

/-- Every line on the way to a text led to the next file on it. -/
theorem Visits.ledTo {u : Text} {begun : Machine} (h : Visits env file t m chain f u begun) :
    ∀ before p later, chain = before ++ p :: later →
      ∃ target, (chainFiles later f).head? = some target ∧ LedTo env file t m before p target := by
  induction h with
  | start =>
    intro before p later hsplit
    exact absurd hsplit.symm (List.append_ne_nil_of_right_ne_nil _ (List.cons_ne_nil _ _))
  | @enter chain f target u v content first last begun after visited split reached effect ih =>
    intro before p later hsplit
    rcases List.eq_nil_or_concat' later with rfl | ⟨later, q, rfl⟩
    -- the last line is the include that led to the text
    · obtain ⟨rfl, hp⟩ := List.append_inj' hsplit rfl
      obtain rfl := (List.cons.inj hp).1
      have hat : AtLines env file t m chain f (first.length + 1) (content :: last) after :=
        ⟨u, first, begun, visited, split, reached, rfl⟩
      obtain ⟨argument, e, name, hentering, htarget⟩ := entering_of_lineEffect effect
      exact ⟨target, rfl, content, last, after, argument, e, name, v, hat.lineOf, hat, hentering,
        htarget⟩
    -- an earlier line is on the way to the file of that include
    · rw [← List.cons_append, ← List.append_assoc] at hsplit
      obtain ⟨hchain, hq⟩ := List.append_inj' hsplit rfl
      obtain rfl := (List.cons.inj hq).1
      obtain ⟨next, hnext, hled⟩ := ih before p later hchain
      refine ⟨next, ?_, hled⟩
      rw [Linked.chainFiles_concat, List.head?_append, hnext, Option.some_or]

/-! ## What a diagnostic says -/

/-- A line that enters no file fails with its own place and content. -/
theorem exists_fault_of_processLine {enter : List Position → Path → Text → Machine → Processed}
    {here : Position} {content : Text} {mid : Machine}
    (own : ∀ target u, lineEffect env chain here mid content ≠ .ok (.enter target u))
    (h : (processLine enter env chain here content mid).1 = .error d) :
    ∃ fault : Fault, d = fault.diagnostic chain here content := by
  unfold processLine at h
  split at h
  next fault _ => exact ⟨fault, (Except.error.inj h).symm⟩
  next => nomatch h
  next target u heffect => exact absurd heffect (own target u)
  next extension arguments column _ =>
    dsimp only at h
    split at h
    next => nomatch h
    next => exact ⟨_, (Except.error.inj h).symm⟩
  next => nomatch h

/-- The check at the end of a text fails at a block of the text. -/
theorem exists_frame_of_checkClosed {depth : Nat} {mid : Machine}
    (h : (checkClosed chain f depth mid).1 = .error d) :
    ∃ frame, mid.state.blocks.unclosed? depth = some frame ∧
      d = { Diagnostic.atLine (.structural (.unclosedBlock frame.openedBy frame.openedAt))
        ⟨f, frame.openedAt⟩ with includedFrom := chain } := by
  unfold checkClosed at h
  split at h
  next => nomatch h
  next frame hframe => exact ⟨frame, hframe, (Except.error.inj h).symm⟩

/-- A failure knows the way on which the pass came to its file. -/
theorem FailsAt.exists_way {mid : Machine} (h : FailsAt env file t m d mid) :
    ∃ f u begun, d.file = some f ∧ Visits env file t m d.includedFrom f u begun ∧
      (FailsOnLine env file t m d.includedFrom f d ∨
        LeavesUnclosed env file t m d.includedFrom f d) := by
  cases h with
  | @line chain f line content later mid reached own fails =>
    obtain ⟨fault, rfl⟩ := exists_fault_of_processLine own fails
    obtain ⟨u, begun, -, hvisits, -⟩ := reached.visited
    exact ⟨f, u, begun, rfl, hvisits,
      .inl ⟨line, content, later, mid, reached.lineOf, reached, own, fails, rfl, rfl⟩⟩
  | @unclosed chain f u begun mid visited reached fails =>
    obtain ⟨frame, hframe, rfl⟩ := exists_frame_of_checkClosed fails
    exact ⟨f, u, begun, rfl, visited, .inr ⟨u, begun, mid, frame, visited, reached, hframe, rfl⟩⟩

/-- **A diagnostic tells the way to its file.** When the pass over a file fails, the lines that the
diagnostic names as including are those through which the pass came to the failure, no more and no
fewer. The first of them stands in the file of the pass. Each is an include that was carried out, and
its value, seen from the directory of its file, is the file of the next line, or the file of the
diagnostic after the last one. In that file the failure is one of a line, which the diagnostic names
and quotes, unless it is that a block is never closed. -/
theorem processFile_includedFrom (env : Environment) (settings : Settings) (file : Path) (t : Text)
    (m : Machine) (d : Diagnostic) (h : (processFile env settings file t m).1 = .error d) :
    ∃ f, d.file = some f ∧ (chainFiles d.includedFrom f).head? = some file ∧
      (∀ before p later, d.includedFrom = before ++ p :: later →
        ∃ target, (chainFiles later f).head? = some target ∧ LedTo env file t m before p target) ∧
      (FailsOnLine env file t m d.includedFrom f d ∨
        LeavesUnclosed env file t m d.includedFrom f d) := by
  obtain ⟨mid, hfails, -⟩ := processFile_failsAt (Prod.ext h rfl)
  obtain ⟨f, u, begun, hfile, hvisits, hplace⟩ := hfails.exists_way
  exact ⟨f, hfile, hvisits.head?_chainFiles, hvisits.ledTo, hplace⟩

/-! ## A failure in the third file -/

/-- The first file includes a part, and then another one that includes the same part and a third. -/
def outlineText : Text := "@include \"part\"\n@include \"dir/chapter\"".toList

/-- The file fails in the file that its second include includes with its last line. -/
def bookFiles : Environment where
  marker := ['@']
  files :=
    { entries := [(["dir".toList], .directory),
        (["dir".toList, "chapter".toList],
          .file (.text "@define N 1\n@include \"../part\"\n  @include \"end\"".toList)),
        (["dir".toList, "end".toList], .file (.text "/*$n$*/\n  /*$m$*/ ".toList)),
        (["part".toList], .file (.text "text".toList))]
      workingDirectory := [] }
  extension := none

/-- The part, which was included twice before the failure, is not on the way. -/
theorem bookFiles_includedFrom :
    ∃ d, (processFile bookFiles {} ⟨"main".toList⟩ outlineText freshMachine).1 = .error d ∧
      d.includedFrom = [⟨⟨"main".toList⟩, 2⟩, ⟨⟨"dir/chapter".toList⟩, 3⟩] ∧
      d.file = some ⟨"dir/end".toList⟩ ∧ d.line = some 2 ∧ d.fragment = some "/*$m$*/".toList ∧
      LedTo bookFiles ⟨"main".toList⟩ outlineText freshMachine [] ⟨⟨"main".toList⟩, 2⟩
        ⟨"dir/chapter".toList⟩ ∧
      LedTo bookFiles ⟨"main".toList⟩ outlineText freshMachine [⟨⟨"main".toList⟩, 2⟩]
        ⟨⟨"dir/chapter".toList⟩, 3⟩ ⟨"dir/end".toList⟩ := by
  have hfails : failure? (processFile bookFiles {} ⟨"main".toList⟩ outlineText freshMachine).1 =
      some { cause := .evaluation (.unknownVariable ['m'])
             file := some ⟨"dir/end".toList⟩
             line := some 2
             column := some 6
             fragment := some "/*$m$*/".toList
             includedFrom := [⟨⟨"main".toList⟩, 2⟩, ⟨⟨"dir/chapter".toList⟩, 3⟩] } := by
    decide +kernel
  have hd := eq_error_of_failure? hfails
  obtain ⟨f, hfile, -, hway, -⟩ := processFile_includedFrom _ _ _ _ _ _ hd
  obtain rfl := Option.some.inj hfile
  obtain ⟨first, hfirst, hledFirst⟩ := hway [] _ _ rfl
  obtain ⟨second, hsecond, hledSecond⟩ := hway [_] _ _ rfl
  obtain rfl := Option.some.inj hfirst
  obtain rfl := Option.some.inj hsecond
  exact ⟨_, hd, rfl, rfl, rfl, rfl, hledFirst, hledSecond⟩

end SourcePreprocessor
