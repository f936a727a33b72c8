import SourcePreprocessor.Proofs.Pass.LargerTree

/-!
# Nothing after an exit is read

An exit ends the pass over its file and over every file that includes it, whatever blocks are open
in them. What was written up to there stays.

> `AtLines.stop`: the pass that comes to an exit ends there, with what it had when it came to it.

The lines after the exit are not read, and neither are those after the includes on the way to it. So
they can be anything. Let the pass *stand* at the lines of that way: at an include in each of the
files around, and at the exit itself. `SameSoFar` says of other files and of another text of the
first file that they are the same as far as the pass has read them when it stands there.

> `processFile_stops`: then the pass gives the same over them.

This asks for a whole file where the pass has gone through one before, in an include that it has
left again. A file can be included twice, and stop only the second time. Then its lines after the
exit were read the first time, and other lines in their place can change everything
(`sharedPart_differs`).
-/

namespace SourcePreprocessor

/-- The line stops the pass: in text that is kept, it is an exit, or one whose condition holds. -/
inductive StopsPass (env : Environment) (here : Position) (m : Machine) (content : Text) : Prop
  | exit {argument : Text} (kind : lineKind env.marker content = .directive .exit argument)
    (active : m.state.blocks.isActive = true) (bare : (Text.trim argument).isEmpty = true)
  | exitIf {argument : Text} (kind : lineKind env.marker content = .directive .exitIf argument)
    (active : m.state.blocks.isActive = true)
    (holds : conditionHolds (m.scope here) .exitIf argument = .ok true)

/-- Such a line asks for nothing else. -/
theorem StopsPass.lineEffect {env : Environment} {here : Position} {m : Machine} {content : Text}
    (h : StopsPass env here m content) (chain : List Position) :
    lineEffect env chain here m content = .ok .exit := by
  unfold SourcePreprocessor.lineEffect
  cases h with
  | exit kind active bare =>
    rw [kind]
    show (if m.state.blocks.isActive then _ else _) = _
    rw [if_pos active]
    show atColumn _ (((if _ then _ else _ : Except StructureError Unit).mapError _) >>= _) = _
    rw [if_pos bare]
    rfl
  | exitIf kind active holds =>
    rw [kind]
    show (if m.state.blocks.isActive then _ else _) = _
    rw [if_pos active]
    show atColumn _ (conditionHolds (m.scope here) .exitIf _ >>= _) = _
    rw [holds]
    rfl

/-- It is no include, so the files do not matter to it. -/
theorem StopsPass.withFiles {env : Environment} {here : Position} {m : Machine} {content : Text}
    (h : StopsPass env here m content) (files : FileTree) :
    StopsPass (env.withFiles files) here m content := by
  cases h with
  | exit kind active bare => exact .exit kind active bare
  | exitIf kind active holds => exact .exitIf kind active holds

namespace Machine

/-- The machine after a pass has stopped that stood at these lines: the log has a record for each of
them, the innermost first. -/
def leave (m : Machine) (stand : List Position) : Machine :=
  stand.foldr (fun here m => m.note .detail (here.string ++ ": exit")) m

theorem leave_concat (m : Machine) (stand : List Position) (here : Position) :
    m.leave (stand ++ [here]) = (m.note .detail (here.string ++ ": exit")).leave stand :=
  List.foldr_append ..

/-- Leaving the files writes records and nothing else. -/
theorem leave_eq (m : Machine) (stand : List Position) :
    (m.leave stand).state = m.state ∧ (m.leave stand).globals = m.globals ∧
      (m.leave stand).actions = m.actions := by
  induction stand with
  | nil => exact ⟨rfl, rfl, rfl⟩
  | cons here stand ih => exact ih

end Machine

/-! ## The way out -/

section Exit

variable {env : Environment} {file : Path} {t : Text} {m : Machine} {chain : List Position}
  {f : Path} {u content : Text} {begun mid : Machine}

/-- A line that stops the pass stops the text in which it stands. -/
theorem textEnds_of_stop {before later : List Text} {after : Machine}
    (hsplit : Text.lines u = before ++ content :: later)
    (hreached : LinesEnd env chain f 1 before begun (.ok .next, mid))
    (hline : LineEnds env chain ⟨f, before.length + 1⟩ content mid (.ok .stop, after)) :
    TextEnds env chain f u begun
      (.ok .stop, after.note .detail ((Position.mk f (before.length + 1)).string ++ ": exit")) := by
  refine textEnds_ok_iff.2 ⟨?_, nofun⟩
  rw [hsplit]
  refine hreached.append ?_
  rw [Nat.add_comm 1]
  exact .stop hline

/-- Where a text stops, so do the texts around it. -/
theorem Visits.stop (h : Visits env file t m chain f u begun) {after : Machine}
    (hends : TextEnds env chain f u begun (.ok .stop, after)) :
    TextEnds env [] file t m (.ok .stop, after.leave chain) := by
  induction h generalizing after with
  | start => exact hends
  | enter _ split reached effect ih =>
    rw [Machine.leave_concat]
    exact ih (textEnds_of_stop split reached (.entering effect hends))

/-- The pass ends at an exit that it comes to, in every file around. -/
theorem AtLines.stop {line : Nat} {later : List Text}
    (hat : AtLines env file t m chain f line (content :: later) mid)
    (hstops : StopsPass env ⟨f, line⟩ mid content) :
    TextEnds env [] file t m (.ok .stop, mid.leave (chain ++ [⟨f, line⟩])) := by
  obtain ⟨u, before, begun, hvisits, hsplit, hreached, rfl⟩ := hat
  have heffect := hstops.lineEffect chain
  have hline : LineEnds env chain ⟨f, before.length + 1⟩ content mid (.ok .stop, mid) := by
    have halone : LineEnds env chain ⟨f, before.length + 1⟩ content mid _ :=
      .alone fun target v henter => nomatch heffect.symm.trans henter
    unfold processLine at halone
    rw [heffect] at halone
    exact halone
  rw [Machine.leave_concat]
  exact hvisits.stop (textEnds_of_stop hsplit hreached hline)

end Exit

/-! ## What has not been read -/

/-- Trees with the same directories, and with files at the same places, follow every path alike. -/
theorem FileTree.canonical_eq {tree other : FileTree} (h : tree.Within other)
    (h' : other.Within tree) (path : Path) : other.canonical path = tree.canonical path := by
  cases hpath : tree.exists? path with
  | true => exact h.canonical hpath
  | false =>
    have hother : other.exists? path = false :=
      Bool.eq_false_iff.2 fun hexists => Bool.eq_false_iff.1 hpath (h'.exists? hexists)
    unfold FileTree.canonical
    rw [Option.isSome_eq_false_iff.1 hpath |> Option.isNone_iff_eq_none.1,
      Option.isSome_eq_false_iff.1 hother |> Option.isNone_iff_eq_none.1]

/-- Another file in the place of one that is there leaves all places as they are. -/
theorem FileTree.within_insert_file (tree : FileTree) {location : Location} (hne : location ≠ [])
    (hfile : (tree.file? location).isSome = true) (content : Content) :
    tree.Within (tree.insert location (.file content)) ∧
      (tree.insert location (.file content)).Within tree := by
  obtain ⟨content', hnode⟩ := FileTree.isSome_file?_iff.1 hfile
  refine ⟨⟨rfl, fun other hother => ?_, fun other hother => ?_⟩,
    ⟨rfl, fun other hother => ?_, fun other hother => ?_⟩⟩
  · have hdiffer : other ≠ location := by
      rintro rfl
      rw [hnode] at hother
      nomatch hother
    rwa [FileTree.node?_insert tree hne, if_neg hdiffer]
  · rw [FileTree.file?_insert_file tree hne]
    split
    · rfl
    · exact hother
  · rw [FileTree.node?_insert tree hne] at hother
    split at hother
    · nomatch hother
    · exact hother
  · rw [FileTree.file?_insert_file tree hne] at hother
    split at hother
    · next h => rwa [h]
    · exact hother

/-- The other files, and the other text of the first one, are the same as far as the pass has read
them when it stands at these lines. -/
structure SameSoFar (env : Environment) (file : Path) (t : Text) (m : Machine)
    (stand : List Position) (other : FileTree) (t' : Text) : Prop where
  within : env.files.Within other
  contains : other.Within env.files
  /-- The first text, up to the line at which the pass stands in it. -/
  first : ∀ p ∈ stand.head?, (Text.lines t').take p.line = (Text.lines t).take p.line
  /-- The files on the way, up to these lines. -/
  further : ∀ p ∈ stand.tail, ∃ u u', env.files.readText p.file = .ok u ∧
    other.readText p.file = .ok u' ∧ (Text.lines u').take p.line = (Text.lines u).take p.line
  /-- The files that the pass has left again, as a whole. -/
  earlier : ∀ chain f u begun, Visits env file t m chain f u begun → ¬ chain <+: stand →
    other.readText f = .ok u

section Reading

variable {env : Environment} {file : Path} {t t' : Text} {m : Machine} {stand : List Position}
  {other : FileTree}

/-- The pass comes to lines at none of which it will stand, nor in a text that they include. -/
def Aside (env : Environment) (file : Path) (t : Text) (m : Machine) (stand : List Position)
    (chain : List Position) (f : Path) (line : Nat) (contents : List Text) (mid : Machine) : Prop :=
  (∃ later, AtLines env file t m chain f line (contents ++ later) mid) ∧
    ∀ n < contents.length, ¬ chain ++ [⟨f, line + n⟩] <+: stand

theorem SameSoFar.readsAlike (hsame : SameSoFar env file t m stand other t') :
    ReadsAlike env other (Aside env file t m stand) where
  next := by
    intro chain f line content contents mid after ⟨⟨later, hat⟩, haside⟩ hline
    refine ⟨⟨later, hat.next hline⟩, fun n hn => ?_⟩
    rw [Nat.add_assoc, Nat.add_comm 1]
    exact haside (n + 1) (Nat.succ_lt_succ hn)
  enter := by
    intro chain f line content contents mid target v ⟨⟨later, hat⟩, haside⟩ heffect
    have hout : ¬ chain ++ [⟨f, line⟩] <+: stand := haside 0 (Nat.succ_pos _)
    have hread := hsame.earlier _ _ _ _ (hat.enter heffect) hout
    refine ⟨lineEffect_enter_withFiles heffect hsame.within
      (fun g _ => FileTree.canonical_eq hsame.within hsame.contains g) hread, ⟨[], ?_⟩, ?_⟩
    · rw [List.append_nil]
      exact .start (hat.enter heffect)
    · exact fun n _ hn => hout ((List.prefix_append _ _).trans hn)

/-- The lines before the one at which the pass stands in a text do the same. -/
theorem SameSoFar.linesEnd (hsame : SameSoFar env file t m stand other t') {chain : List Position}
    {f : Path} {u : Text} {begun mid : Machine} {before later : List Text}
    (hvisits : Visits env file t m chain f u begun) (hsplit : Text.lines u = before ++ later)
    (hreached : LinesEnd env chain f 1 before begun (.ok .next, mid))
    (hstand : chain ++ [⟨f, before.length + 1⟩] <+: stand) :
    LinesEnd (env.withFiles other) chain f 1 before begun (.ok .next, mid) := by
  refine hreached.withFiles hsame.readsAlike ⟨⟨later, hsplit ▸ .start hvisits⟩, ?_⟩ rfl
  intro n hn hother
  -- the pass stands at one line of the text only, and that comes later
  have hlength : (chain ++ [(⟨f, 1 + n⟩ : Position)]).length =
      (chain ++ [(⟨f, before.length + 1⟩ : Position)]).length := by
    rw [List.length_append, List.length_append]
    rfl
  have heq := (List.prefix_of_prefix_length_le hother hstand hlength.le).eq_of_length hlength
  have hline := (Position.mk.inj (List.cons.inj (List.append_cancel_left heq)).1).2
  omega

/-- A list that agrees with another one up to an element has that element at the same place. -/
theorem eq_append_cons_drop {α : Type} {xs xs' before later : List α} {x : α}
    (h : xs'.take (before.length + 1) = xs.take (before.length + 1))
    (hsplit : xs = before ++ x :: later) : xs' = before ++ x :: xs'.drop (before.length + 1) := by
  have htake : xs'.take (before.length + 1) = before ++ [x] := by
    rw [h, hsplit, List.take_length_add_append]
    rfl
  calc xs' = xs'.take (before.length + 1) ++ xs'.drop (before.length + 1) :=
        (List.take_append_drop ..).symm
    _ = before ++ x :: xs'.drop (before.length + 1) := by
        rw [htake, List.append_assoc]
        rfl

/-- The pass over the other files comes to the same texts, as far as they are read. -/
theorem SameSoFar.visits (hsame : SameSoFar env file t m stand other t') {chain : List Position}
    {f : Path} {u : Text} {begun : Machine} (h : Visits env file t m chain f u begun) :
    ∀ {line : Nat}, chain ++ [⟨f, line⟩] <+: stand → ∃ u',
      Visits (env.withFiles other) file t' m chain f u' begun ∧
        (Text.lines u').take line = (Text.lines u).take line := by
  induction h with
  | start =>
    intro line hstand
    obtain ⟨rest, hrest⟩ := hstand
    exact ⟨t', .start, hsame.first ⟨file, line⟩ (by rw [← hrest]; rfl)⟩
  | @enter chain f target u v content before later begun after hvisits split reached effect ih =>
    intro line hstand
    have hinner := (List.prefix_append (chain ++ [⟨f, before.length + 1⟩])
      [(⟨target, line⟩ : Position)]).trans hstand
    obtain ⟨u', hvisits', hlines⟩ := ih hinner
    obtain ⟨w, v', hread, hread', hv⟩ : ∃ w v', env.files.readText target = .ok w ∧
        other.readText target = .ok v' ∧ (Text.lines v').take line = (Text.lines w).take line := by
      refine hsame.further ⟨target, line⟩ ?_
      obtain ⟨rest, hrest⟩ := hstand
      rw [← hrest, List.append_assoc, List.tail_append_of_ne_nil (List.concat_ne_nil _ _)]
      exact List.mem_append_right _ List.mem_cons_self
    obtain rfl := Except.ok.inj (hread.symm.trans (entered_of_lineEffect effect).2)
    refine ⟨v', .enter hvisits' (eq_append_cons_drop hlines split)
      (hsame.linesEnd hvisits split reached hinner) ?_, hv⟩
    exact lineEffect_enter_withFiles effect hsame.within
      (fun g _ => FileTree.canonical_eq hsame.within hsame.contains g) hread'

/-- The pass over the other files comes to the line at which the first one stands. -/
theorem SameSoFar.atLines {chain : List Position} {f : Path} {line : Nat} {content : Text}
    {later : List Text} {mid : Machine}
    (hsame : SameSoFar env file t m (chain ++ [⟨f, line⟩]) other t')
    (hat : AtLines env file t m chain f line (content :: later) mid) :
    ∃ later', AtLines (env.withFiles other) file t' m chain f line (content :: later') mid := by
  obtain ⟨u, before, begun, hvisits, hsplit, hreached, rfl⟩ := hat
  obtain ⟨u', hvisits', hlines⟩ := hsame.visits hvisits (List.prefix_refl _)
  have hreached' := hsame.linesEnd hvisits hsplit hreached (List.prefix_refl _)
  exact ⟨_, u', before, begun, hvisits', eq_append_cons_drop hlines hsplit, hreached', rfl⟩

end Reading

/-! ## The pass as a whole -/

section Passes

variable {env : Environment} {file : Path} {t : Text} {m : Machine} {chain : List Position}
  {f : Path} {line : Nat} {content : Text} {later : List Text} {mid : Machine}

/-- **Nothing after an exit matters.** Let the pass over a file come to a line that stops it, in the
file or in one that it includes over any chain of includes. Then the pass succeeds, and it ends with
the lines, the globals and the actions that it had when it came to that line.

Other lines in place of those after the exit, and of those after the includes on the way to it,
change none of this. Only the files that the pass had left again before, where it read them to their
end, have to stay as they are. -/
theorem processFile_stops (settings : Settings)
    (hat : AtLines env file t m chain f line (content :: later) mid)
    (hstops : StopsPass env ⟨f, line⟩ mid content) :
    ∃ after, after.state = mid.state ∧ after.globals = mid.globals ∧
      after.actions = mid.actions ∧
      processFile env settings file t m = (.ok (renderOutput settings t mid.state.lines), after) ∧
      ∀ other t', SameSoFar env file t m (chain ++ [⟨f, line⟩]) other t' →
        processFile (env.withFiles other) settings file t' m =
          (.ok (renderOutput settings t' mid.state.lines), after) := by
  obtain ⟨hstate, hglobals, hactions⟩ := mid.leave_eq (chain ++ [⟨f, line⟩])
  refine ⟨mid.leave (chain ++ [⟨f, line⟩]), hstate, hglobals, hactions, ?_, fun other t' hsame => ?_⟩
  · rw [processFile_of_textEnds (hat.stop hstops) settings, hstate]
  · obtain ⟨later', hat'⟩ := hsame.atLines hat
    rw [processFile_of_textEnds (hat'.stop (hstops.withFiles other)) settings, hstate]

end Passes

/-! ## An exit on the way, and an exit in a part that was read before -/

/-- Without the care for its end, the output has nothing of the text but the lines. -/
theorem renderOutput_eq_flatMap {settings : Settings} (h : settings.keepLastEnd = false) (t : Text)
    (lines : List Text) : renderOutput settings t lines = lines.flatMap (· ++ settings.lineEnd) := by
  unfold renderOutput
  rw [if_neg (Bool.not_eq_true _ ▸ h)]

/-- A file that includes two others, the second one in a block. -/
def stoppedText : Text :=
  Text.join ['\n'] ["@include \"head\"".toList, "@if true".toList, "@include \"part\"".toList,
    "never".toList, "@endif".toList]

/-- The second of them has an exit in a block of its own. -/
def stoppedPart : Text :=
  Text.join ['\n'] ["@define n 1".toList, "@if false".toList, "@else".toList,
    "kept /*$n$*/".toList, "@exitif n<2".toList, "@endif".toList, "never".toList]

def stoppedFiles : Environment where
  marker := ['@']
  files :=
    { entries := [(["head".toList], .file (.text "first".toList)),
        (["part".toList], .file (.text stoppedPart))]
      workingDirectory := [] }
  extension := none

/-- What comes after the include and after the exit is full of errors. -/
def brokenText : Text :=
  Text.join ['\n'] ["@include \"head\"".toList, "@if true".toList, "@include \"part\"".toList,
    "@nosuch".toList, "@if".toList]

def brokenPart : Text :=
  Text.join ['\n'] ["@define n 1".toList, "@if false".toList, "@else".toList,
    "kept /*$n$*/".toList, "@exitif n<2".toList, "@endif".toList, "@endif".toList,
    "/*$1+$*/".toList]

def brokenFiles : FileTree :=
  stoppedFiles.files.insert ["part".toList] (.file (.text brokenPart))

/-- The parts include nothing. -/
theorem readText_stoppedFiles {path : Path} {u : Text}
    (h : stoppedFiles.files.readText path = .ok u) :
    ∀ content ∈ Text.lines u, (lineKind stoppedFiles.marker content).isInclude = false := by
  obtain ⟨location, hmem, -⟩ := FileTree.mem_entries_of_readText h
  simp only [stoppedFiles, List.mem_cons, List.not_mem_nil, or_false, Prod.mk.injEq,
    Node.file.injEq, Content.text.injEq] at hmem
  rcases hmem with ⟨-, rfl⟩ | ⟨-, rfl⟩ <;> decide +kernel

/-- The text includes something at its first and its third line. -/
theorem stoppedText_includes {n : Nat} {content : Text}
    (hget : (Text.lines stoppedText)[n]? = some content)
    (hinclude : (lineKind stoppedFiles.marker content).isInclude = true) :
    n = 0 ∧ content = "@include \"head\"".toList ∨ n = 2 := by
  have hlines : ∀ n < 5, ∀ content ∈ (Text.lines stoppedText)[n]?,
      (lineKind stoppedFiles.marker content).isInclude = true →
        n = 0 ∧ content = "@include \"head\"".toList ∨ n = 2 := by decide +kernel
  obtain ⟨hn, -⟩ := List.getElem?_eq_some_iff.1 hget
  exact hlines n (hn.trans_le (by decide +kernel)) content hget hinclude

/-- The pass leaves the first of the two parts again, and stands in the second one. -/
theorem stoppedFiles_earlier {chain : List Position} {f : Path} {u : Text} {begun : Machine}
    (h : Visits stoppedFiles ⟨"main".toList⟩ stoppedText freshMachine chain f u begun)
    (haside : ¬ chain <+: [⟨⟨"main".toList⟩, 3⟩, ⟨⟨"part".toList⟩, 5⟩]) :
    brokenFiles.readText f = .ok u := by
  cases h with
  | start => exact absurd (List.nil_prefix) haside
  | @enter outer g target w v content before later start after visited split reached effect =>
    have hinclude : (lineKind stoppedFiles.marker content).isInclude = true := by
      obtain ⟨argument, e, name, hentering, -⟩ := entering_of_lineEffect effect
      rw [hentering.kind]
      rfl
    have hmem : content ∈ Text.lines w := split ▸ List.mem_append_right _ List.mem_cons_self
    cases visited with
    | enter _ _ _ outerEffect =>
      have hnone := readText_stoppedFiles (entered_of_lineEffect outerEffect).2 content hmem
      rw [hinclude] at hnone
      nomatch hnone
    | start =>
      have hget : (Text.lines stoppedText)[before.length]? = some content := by
        rw [split, List.getElem?_append_right (Nat.le_refl _), Nat.sub_self]
        rfl
      rcases stoppedText_includes hget hinclude with ⟨hzero, rfl⟩ | htwo
      · obtain rfl := List.eq_nil_of_length_eq_zero hzero
        cases reached
        have hhead : (lineEffect stoppedFiles [] ⟨⟨"main".toList⟩, 1⟩ freshMachine
            "@include \"head\"".toList).toOption.bind Effect.entered? =
              some (⟨"head".toList⟩, "first".toList) := by decide +kernel
        obtain ⟨rfl, rfl⟩ := Effect.enter.inj (Except.ok.inj
          (effect.symm.trans (eq_enter_of_entered? hhead)))
        exact eq_ok_of_toOption (by decide +kernel)
      · refine absurd ?_ haside
        rw [htwo]
        exact List.prefix_append _ _

theorem stoppedFiles_sameSoFar :
    SameSoFar stoppedFiles ⟨"main".toList⟩ stoppedText freshMachine
      [⟨⟨"main".toList⟩, 3⟩, ⟨⟨"part".toList⟩, 5⟩] brokenFiles brokenText := by
  have hne : ["part".toList] ≠ [] := by decide
  obtain ⟨hwithin, hcontains⟩ :=
    FileTree.within_insert_file stoppedFiles.files hne (by decide +kernel) _
  refine ⟨hwithin, hcontains, ?_, ?_, fun _ _ _ _ => stoppedFiles_earlier⟩
  · intro p hp
    obtain rfl := Option.some.inj hp
    decide +kernel
  · intro p hp
    obtain rfl := List.mem_singleton.1 hp
    exact ⟨stoppedPart, brokenPart, eq_ok_of_toOption (by decide +kernel),
      eq_ok_of_toOption (by decide +kernel), by decide +kernel⟩

/-- The pass stops in the block of the second part, and so it does when errors follow. -/
theorem stoppedFiles_stops :
    (processFile stoppedFiles {} ⟨"main".toList⟩ stoppedText freshMachine).1.toOption =
        some "first\nkept 1\n".toList ∧
      (processFile (stoppedFiles.withFiles brokenFiles) {} ⟨"main".toList⟩ brokenText
        freshMachine).1.toOption = some "first\nkept 1\n".toList := by
  have hmain : AtLines stoppedFiles ⟨"main".toList⟩ stoppedText freshMachine [] ⟨"main".toList⟩ 3
      ["@include \"part\"".toList, "never".toList, "@endif".toList] _ :=
    Visits.start.atLines ["@include \"head\"".toList, "@if true".toList] (by decide +kernel)
      (by decide +kernel)
  have hpart := hmain.enter
    (@eq_enter_of_entered? _ ⟨"part".toList⟩ stoppedPart (by decide +kernel))
  have hat : AtLines stoppedFiles _ _ _ _ ⟨"part".toList⟩ 5
      ["@exitif n<2".toList, "@endif".toList, "never".toList] _ :=
    hpart.atLines ["@define n 1".toList, "@if false".toList, "@else".toList,
      "kept /*$n$*/".toList] (by decide +kernel) (by decide +kernel)
  have hkind : lineKind stoppedFiles.marker "@exitif n<2".toList =
      .directive .exitIf " n<2".toList := by decide +kernel
  obtain ⟨after, -, -, -, houtput, hother⟩ := processFile_stops {} hat
    (.exitIf hkind (by decide +kernel) (eq_ok_of_toOption (by decide +kernel)))
  have hkept : (processFile stoppedFiles {} ⟨"main".toList⟩ stoppedText
      freshMachine).1.toOption = some "first\nkept 1\n".toList := by decide +kernel
  have hrender (lines : List Text) :
      renderOutput {} brokenText lines = renderOutput {} stoppedText lines := by
    rw [renderOutput_eq_flatMap rfl, renderOutput_eq_flatMap rfl]
  refine ⟨hkept, ?_⟩
  rw [houtput] at hkept
  rw [hother _ _ stoppedFiles_sameSoFar, hrender]
  exact hkept

/-- A file that includes a part twice, with a definition in between. -/
def twiceText : Text :=
  Text.join ['\n'] ["@include \"part\"".toList, "@local n=1".toList, "@include \"part\"".toList]

/-- The part stops where the variable is defined. -/
def sharedPart : Text :=
  Text.join ['\n'] ["@ifdef n".toList, "@exit".toList, "@endif".toList, "a".toList]

/-- The same part, with another line at its end. -/
def changedPart : Text :=
  Text.join ['\n'] ["@ifdef n".toList, "@exit".toList, "@endif".toList, "b".toList]

/-- **What comes after an exit can have been read before.** The exit is reached in the second
include of the part, at its second line. The changed part is the same up to there, but its last line
was written in the first include. -/
theorem sharedPart_differs :
    (∃ mid, AtLines (withPart sharedPart) ⟨"main".toList⟩ twiceText freshMachine
        [⟨⟨"main".toList⟩, 3⟩] ⟨"part".toList⟩ 2 ["@exit".toList, "@endif".toList, "a".toList] mid ∧
      StopsPass (withPart sharedPart) ⟨⟨"part".toList⟩, 2⟩ mid "@exit".toList) ∧
    (Text.lines changedPart).take 2 = (Text.lines sharedPart).take 2 ∧
    (processFile (withPart sharedPart) {} ⟨"main".toList⟩ twiceText freshMachine).1.toOption =
      some "a\n".toList ∧
    (processFile (withPart changedPart) {} ⟨"main".toList⟩ twiceText freshMachine).1.toOption =
      some "b\n".toList := by
  have hmain : AtLines (withPart sharedPart) ⟨"main".toList⟩ twiceText freshMachine []
      ⟨"main".toList⟩ 3 ["@include \"part\"".toList] _ :=
    Visits.start.atLines ["@include \"part\"".toList, "@local n=1".toList] (by decide +kernel)
      (by decide +kernel)
  have hpart := hmain.enter
    (@eq_enter_of_entered? _ ⟨"part".toList⟩ sharedPart (by decide +kernel))
  have hat : AtLines (withPart sharedPart) _ _ _ _ ⟨"part".toList⟩ 2
      ["@exit".toList, "@endif".toList, "a".toList] _ :=
    hpart.atLines ["@ifdef n".toList] (by decide +kernel) (by decide +kernel)
  have hkind : lineKind (withPart sharedPart).marker "@exit".toList = .directive .exit [] := by
    decide +kernel
  refine ⟨⟨_, hat, .exit hkind ?_ rfl⟩, ?_, ?_, ?_⟩ <;> decide +kernel

end SourcePreprocessor
