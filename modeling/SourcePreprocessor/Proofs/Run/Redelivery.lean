import SourcePreprocessor.Proofs.Pass.LargerTree
import SourcePreprocessor.Proofs.Run.Resurvey

/-!
# Delivering again

The second half of a run is repeated in files that hold its outcome already, or in those that it
started from, when the destination was cleared. Either way each of its steps finds what it needs and
leaves what it left the first time (`Run.Repeatable`):

> `prepareDestination_again`: making the destination ready again leads back to one of these trees;
> `repeatable_deliver`: the delivery can be repeated from both of them, when nothing that it reads
> stands at or below the destination.

A destination that is cleared takes along what is below it, and a path that leads through there and
back can no longer be followed: what is left of the files then is `kept`. The log of the second run
is another one, but no step looks at it.
-/

namespace SourcePreprocessor

/-- The second world is one in which a run is repeated that was at the first one. -/
structure World.Repeats (directory : Location) (last : FileTree) (v u : World) : Prop where
  files : FileTree.Repeats directory last v.files u.files
  globals : u.globals = v.globals
  actions : u.actions = v.actions

namespace Run

variable {α β : Type} {directory : Location} {v : World}

/-! ## Steps that can be repeated -/

/-- When a step succeeds in this world, it adds to the files below the directory, and it can be
repeated on the way to any files that have what it leaves. -/
def Repeatable (directory : Location) (step : Run α) (v : World) : Prop :=
  ∀ a v', step.exec v = (.ok a, v') →
    FileTree.Grown directory v.files v'.files ∧ v'.files.WellFormed ∧
    ∀ last u, last.WellFormed → v'.files.Within last → World.Repeats directory last v u →
      ∃ u', step.exec u = (.ok a, u') ∧ World.Repeats directory last v' u'

/-- Of a step that fails nothing is asked. -/
theorem repeatable_of_ok {step : Run α}
    (h : ∀ a v', step.exec v = (.ok a, v') → Repeatable directory step v) :
    Repeatable directory step v := fun a v' hexec => h a v' hexec a v' hexec

/-- A step that gives the same and changes no file, whatever the files are. -/
theorem repeatable_of_log {a : α} {step : Run α} (hwell : v.files.WellFormed)
    (h : ∀ w, ∃ log, step.exec w = (.ok a, { w with log })) : Repeatable directory step v := by
  intro b v' hexec
  obtain ⟨log, hlog⟩ := h v
  obtain ⟨hvalue, rfl⟩ := Prod.mk.inj (hexec.symm.trans hlog)
  obtain rfl := Except.ok.inj hvalue
  refine ⟨.refl directory v.files, hwell, fun last u _ _ hrepeats => ?_⟩
  obtain ⟨log', hlog'⟩ := h u
  exact ⟨_, hlog', hrepeats.files, hrepeats.globals, hrepeats.actions⟩

theorem repeatable_pure (a : α) (hwell : v.files.WellFormed) :
    Repeatable directory (pure a : Run α) v :=
  repeatable_of_log hwell fun w => ⟨w.log, rfl⟩

theorem repeatable_note (level : LogLevel) (text : String) (hwell : v.files.WellFormed) :
    Repeatable directory (note level text) v :=
  repeatable_of_log hwell fun _ => ⟨_, rfl⟩

theorem Repeatable.bind {step : Run α} {next : α → Run β} (hstep : Repeatable directory step v)
    (hnext : ∀ a mid, step.exec v = (.ok a, mid) → FileTree.Grown directory v.files mid.files →
      mid.files.WellFormed → Repeatable directory (next a) mid) :
    Repeatable directory (step >>= next) v := by
  intro b v' hexec
  obtain ⟨a, mid, hfirst, hrest⟩ := exec_bind_eq_ok_iff.1 hexec
  obtain ⟨hgrown, hwell, hrepeat⟩ := hstep a mid hfirst
  obtain ⟨hgrown', hwell', hrepeat'⟩ := hnext a mid hfirst hgrown hwell b v' hrest
  refine ⟨hgrown.trans hgrown', hwell', fun last u hlast hbound hu => ?_⟩
  obtain ⟨u₁, hu₁, hmid⟩ := hrepeat last u hlast (hgrown'.within.trans hbound) hu
  obtain ⟨u', hu', hafter⟩ := hrepeat' last u₁ hlast hbound hmid
  exact ⟨u', exec_bind_eq_ok_iff.2 ⟨a, u₁, hu₁, hu'⟩, hafter⟩

/-- A change of the files can be repeated when it can for the trees. -/
theorem repeatable_changeFiles {path : Path} {change : FileTree → FileTree.Outcome}
    (h : ∀ changed, change v.files = (.ok (), changed) →
      FileTree.Grown directory v.files changed ∧ changed.WellFormed ∧
      ∀ last again, last.WellFormed → changed.Within last →
        FileTree.Repeats directory last v.files again →
        ∃ changed', change again = (.ok (), changed') ∧
          FileTree.Repeats directory last changed changed') :
    Repeatable directory (changeFiles path change) v := by
  intro a v' hexec
  obtain ⟨hchange, hglobals, hactions⟩ := changeFiles_eq_ok hexec
  obtain ⟨hgrown, hwell, hrepeat⟩ := h _ hchange
  refine ⟨hgrown, hwell, fun last u hlast hbound hu => ?_⟩
  obtain ⟨changed', hchange', hafter⟩ := hrepeat last u.files hlast hbound hu.files
  exact ⟨{ u with files := changed' }, exec_changeFiles_of_ok hchange', hafter,
    hu.globals.trans hglobals.symm, hu.actions.trans hactions.symm⟩

end Run

/-- The path of a file from its source is made of names of entries. -/
def SourceFile.Named (file : SourceFile) : Prop :=
  ∃ names : List Text, (∀ name ∈ names, IsEntryName name) ∧
    file.relative = ⟨Text.join ['/'] names⟩

namespace Preprocessor

variable {p : Preprocessor}

/-! ## The destination -/

/-- What is left of the files when the destination is cleared. -/
def kept (p : Preprocessor) (tree : FileTree) : FileTree :=
  if p.clears tree then tree.emptied (tree.place p.settings.destination) else tree

/-- What can be relied on when the destination is ready: all that was kept is there, and the
destination is a directory, unless its path is empty and nothing was done. -/
structure Readied (p : Preprocessor) (tree ready : FileTree) : Prop where
  wellFormed : ready.WellFormed
  within : (p.kept tree).Within ready
  directory : ready.isDirectory p.settings.destination = true ∨ p.settings.destination.text = []
  unchanged : p.settings.destination.text = [] → ready = tree

section Destination

variable {w w' : World}

theorem exec_prepareDestination_of_clears (hdry : p.settings.dryRun = false)
    (hclears : p.clears w.files = true) :
    p.prepareDestination.exec w = (Run.note .information
        ("Clearing " ++ p.settings.destination.string) >>= fun _ =>
      Run.changeFiles p.settings.destination (·.removeDirectory p.settings.destination) >>= fun _ =>
        Run.changeFiles p.settings.destination
          (·.makeDirectories p.settings.destination)).exec w := by
  unfold prepareDestination
  rw [if_neg (by rw [hdry]; decide)]
  dsimp only
  rw [Run.exec_bind_of_ok (Run.exec_get w)]
  exact congrArg (Run.exec · w) (if_pos hclears)

theorem exec_prepareDestination_of_keeps (hdry : p.settings.dryRun = false)
    (hkeeps : p.clears w.files = false) :
    p.prepareDestination.exec w = (Run.changeFiles p.settings.destination
      (·.makeDirectories p.settings.destination)).exec w := by
  unfold prepareDestination
  rw [if_neg (by rw [hdry]; decide)]
  dsimp only
  rw [Run.exec_bind_of_ok (Run.exec_get w)]
  exact congrArg (Run.exec · w) (if_neg (by simpa [clears] using hkeeps))

theorem text_ne_nil_of_exists? {tree : FileTree} {path : Path} (h : tree.exists? path = true) :
    path.text ≠ [] := by
  intro hempty
  obtain ⟨text⟩ := path
  obtain rfl : text = [] := hempty
  nomatch h

/-- What making the destination ready does, step by step. -/
theorem prepareDestination_cases (hdry : p.settings.dryRun = false)
    (h : p.prepareDestination.exec w = (.ok (), w')) :
    (p.clears w.files = true ∧ ∃ removed,
      w.files.removeDirectory p.settings.destination = (.ok (), removed) ∧
      removed.makeDirectories p.settings.destination = (.ok (), w'.files)) ∨
    (p.clears w.files = false ∧
      w.files.makeDirectories p.settings.destination = (.ok (), w'.files)) := by
  cases hclears : p.clears w.files with
  | true =>
    rw [exec_prepareDestination_of_clears hdry hclears, Run.exec_bind_of_ok (Run.exec_note _ _ w)]
      at h
    obtain ⟨_, cleared, hclear, hmake⟩ := Run.exec_bind_eq_ok_iff.1 h
    exact .inl ⟨rfl, cleared.files, (Run.changeFiles_eq_ok hclear).1,
      (Run.changeFiles_eq_ok hmake).1⟩
  | false =>
    rw [exec_prepareDestination_of_keeps hdry hclears] at h
    exact .inr ⟨rfl, (Run.changeFiles_eq_ok h).1⟩

theorem readied_of_prepareDestination (hdry : p.settings.dryRun = false)
    (hwell : w.files.WellFormed) (h : p.prepareDestination.exec w = (.ok (), w')) :
    p.Readied w.files w'.files := by
  obtain ⟨hclears, removed, hremoved, hmade⟩ | ⟨hclears, hmade⟩ := prepareDestination_cases hdry h
  · have hne := text_ne_nil_of_exists? (Bool.and_eq_true_iff.1 hclears).2
    have hspec := FileTree.made_of_makeDirectories hne hmade
    obtain ⟨hwd, hother, -⟩ := FileTree.node?_removeDirectory hremoved
    refine ⟨(hwell.removed hremoved).made hmade, ?_, .inl hspec.isDirectory, (absurd · hne)⟩
    unfold kept
    rw [if_pos hclears]
    refine .of_node? (hspec.workingDirectory.trans hwd) fun location node hnode => ?_
    by_cases hlocation : location = w.files.place p.settings.destination
    · -- the directory itself is there before and after
      have hown := (FileTree.resolve_of_isDirectory
        (FileTree.isDirectory_of_removeDirectory hremoved)).2
      have hafter := (FileTree.resolve_of_isDirectory hspec.isDirectory).2
      rw [FileTree.place_eq (hspec.workingDirectory.trans hwd)] at hafter
      rw [hlocation, FileTree.node?_emptied, Location.isBelow_self, if_neg Bool.false_ne_true,
        hown] at hnode
      rw [hlocation, hafter, ← hnode]
    · exact FileTree.node?_makeDirectories hne hmade ((hother location hlocation).trans hnode)
  · have hkept : p.kept w.files = w.files := if_neg (by rw [hclears]; decide)
    have hwithin := FileTree.within_makeDirectories hmade
    rw [← hkept] at hwithin
    refine ⟨hwell.made hmade, hwithin, ?_, fun hempty => ?_⟩
    · by_cases hempty : p.settings.destination.text = []
      · exact .inr hempty
      · exact .inl (FileTree.made_of_makeDirectories hempty hmade).isDirectory
    · rw [FileTree.makeDirectories_empty hempty] at hmade
      exact (Prod.mk.inj hmade).2.symm

/-- A destination that was not cleared is cleared the next time only if nothing stood there, and
then it can be. -/
def ClearsAlike (p : Preprocessor) (tree : FileTree) : Prop :=
  p.settings.clear = true → tree.exists? p.settings.destination = true ∨
    tree.node? (tree.place p.settings.destination) = none ∧
      ¬FileTree.EndsHere p.settings.destination

/-- Making the destination ready once more, after it was delivered to. -/
theorem prepareDestination_again (hdry : p.settings.dryRun = false) (hwell : w.files.WellFormed)
    (halike : p.ClearsAlike w.files) (h : p.prepareDestination.exec w = (.ok (), w'))
    {u : World} (hlast : u.files.WellFormed)
    (hgrown : FileTree.Grown (w.files.place p.settings.destination) w'.files u.files) :
    ∃ u', p.prepareDestination.exec u = (.ok (), u') ∧ u'.globals = u.globals ∧
      u'.actions = u.actions ∧
      FileTree.Repeats (w.files.place p.settings.destination) u.files w'.files u'.files := by
  have hready := readied_of_prepareDestination hdry hwell h
  cases hclears : p.clears u.files with
  | false =>
    have hmade : u.files.makeDirectories p.settings.destination = (.ok (), u.files) := by
      obtain hdirectory | hempty := hready.directory
      · exact FileTree.makeDirectories_again hlast (hgrown.within.isDirectory hdirectory)
      · exact FileTree.makeDirectories_empty hempty
    rw [exec_prepareDestination_of_keeps hdry hclears]
    exact ⟨_, Run.exec_changeFiles_of_ok hmade, rfl, rfl, .grown hlast hgrown⟩
  | true =>
    obtain ⟨hclear, hexists⟩ := Bool.and_eq_true_iff.1 hclears
    have hne := text_ne_nil_of_exists? hexists
    obtain ⟨removed, hremoved, hmade⟩ : ∃ removed,
        u.files.removeDirectory p.settings.destination = (.ok (), removed) ∧
        removed.makeDirectories p.settings.destination = (.ok (), w'.files) := by
      obtain ⟨-, first, hremove, hmake⟩ | ⟨hkeeps, hmake⟩ := prepareDestination_cases hdry h
      · exact FileTree.remake_of_removed hne hwell hlast hgrown hremove hmake
      · have hnew : w.files.exists? p.settings.destination = false := by
          simpa [clears, hclear] using hkeeps
        obtain ⟨hnone, hends⟩ := (halike hclear).resolve_left (by simp [hnew])
        exact FileTree.remake_of_new hne hwell hlast hgrown hnone hends hmake
    rw [exec_prepareDestination_of_clears hdry hclears, Run.exec_bind_of_ok (Run.exec_note _ _ u),
      Run.exec_bind_of_ok (Run.exec_changeFiles_of_ok hremoved),
      Run.exec_changeFiles_of_ok hmade]
    exact ⟨_, rfl, rfl, rfl, .same hready.wellFormed hgrown.within⟩

/-- Preparing is making the destination ready, and a note. -/
theorem prepareDestination_of_prepare {s : Survey} (h : (p.prepare s).exec w = (.ok (), w')) :
    ∃ ready, p.prepareDestination.exec w = (.ok (), ready) ∧ w'.files = ready.files := by
  obtain ⟨_, ready, hready, hnote⟩ := Run.exec_bind_eq_ok_iff.1 h
  exact ⟨ready, hready, (congrArg (World.files ∘ Prod.snd) hnote).symm⟩

theorem readied_of_prepare (hdry : p.settings.dryRun = false) (hwell : w.files.WellFormed)
    {s : Survey} (h : (p.prepare s).exec w = (.ok (), w')) : p.Readied w.files w'.files := by
  obtain ⟨ready, hready, hfiles⟩ := prepareDestination_of_prepare h
  rw [hfiles]
  exact readied_of_prepareDestination hdry hwell hready

theorem prepare_again (hdry : p.settings.dryRun = false) (hwell : w.files.WellFormed)
    (halike : p.ClearsAlike w.files) {s : Survey} (h : (p.prepare s).exec w = (.ok (), w'))
    {u : World} (hlast : u.files.WellFormed)
    (hgrown : FileTree.Grown (w.files.place p.settings.destination) w'.files u.files) :
    ∃ u', (p.prepare s).exec u = (.ok (), u') ∧ u'.globals = u.globals ∧
      u'.actions = u.actions ∧
      FileTree.Repeats (w.files.place p.settings.destination) u.files w'.files u'.files := by
  obtain ⟨ready, hready, hfiles⟩ := prepareDestination_of_prepare h
  rw [hfiles] at hgrown ⊢
  obtain ⟨u', hagain, hglobals, hactions, hrepeats⟩ :=
    prepareDestination_again hdry hwell halike hready hlast hgrown
  exact ⟨_, (Run.exec_bind_of_ok hagain).trans (Run.exec_note _ _ u'), hglobals, hactions, hrepeats⟩

end Destination

/-! ## Outputs -/

/-- A tree in which outputs can be put below the destination, which stands at the location. -/
structure Receives (p : Preprocessor) (directory : Location) (tree : FileTree) : Prop where
  wellFormed : tree.WellFormed
  place : tree.place p.settings.destination = directory
  directory : tree.isDirectory p.settings.destination = true ∨ p.settings.destination.text = []

theorem Receives.grown {directory : Location} {tree grown : FileTree}
    (h : p.Receives directory tree) (hgrown : FileTree.Grown directory tree grown)
    (hwell : grown.WellFormed) : p.Receives directory grown :=
  ⟨hwell, (FileTree.place_eq hgrown.within.workingDirectory _).trans h.place,
    h.directory.imp_left hgrown.within.isDirectory⟩

section Outputs

variable {directory : Location} {tree : FileTree} {file : SourceFile}
  (hreceives : p.Receives directory tree) (hnamed : file.Named)

include hreceives hnamed

/-- The output of a file goes below the destination. -/
theorem isBelow_target (hname : file.relative.text ≠ []) :
    Location.isBelow directory (tree.place (p.target file)) = true := by
  obtain ⟨names, hnames, hrelative⟩ := hnamed
  have hne : names ≠ [] := by
    rintro rfl
    rw [hrelative] at hname
    exact hname rfl
  unfold target
  rw [hrelative, FileTree.place_join_names tree _ hne hnames, hreceives.place]
  exact Location.isBelow_iff.2 ⟨names, hne, rfl⟩

/-- The directories that are made for an output stand below the destination, or are there. -/
theorem node?_of_way_parent {parent : Path} (hparent : (p.target file).parent? = some parent)
    {made : FileTree} (hne : parent.text ≠ [])
    (hmade : tree.makeDirectories parent = (.ok (), made))
    {location : Location} (hlocation : location ∈ tree.way parent)
    (houtside : Location.isBelow directory location = false) :
    tree.node? location = some .directory := by
  obtain ⟨names, hnames, hrelative⟩ := hnamed
  have hway : location ∈ tree.way p.settings.destination := by
    have htarget := (FileTree.mem_way_iff hparent).2 (.inl hlocation)
    unfold target at htarget
    rw [hrelative] at htarget
    obtain hway | ⟨taken, -, rfl⟩ := FileTree.mem_way_join_names tree _ hnames htarget
    · exact hway
    · rw [hreceives.place] at houtside ⊢
      obtain rfl : taken = [] := by
        by_contra htaken
        rw [Location.isBelow_iff.2 ⟨taken, htaken, rfl⟩] at houtside
        nomatch houtside
      rw [List.append_nil, ← hreceives.place]
      exact FileTree.place_mem_way tree _
  obtain hdirectory | hempty := hreceives.directory
  · exact (FileTree.isDirectory_iff.1 hdirectory).2 location hway
  · -- an empty path goes nowhere from where it starts
    have hstart : location = tree.start p.settings.destination := by
      generalize p.settings.destination = destination at hway hempty
      obtain ⟨text⟩ := destination
      obtain rfl : text = [] := hempty
      exact List.mem_singleton.1 hway
    have habsolute : file.relative.isAbsolute = false := by
      rw [hrelative]
      exact FileTree.isAbsolute_join hnames
    rw [hstart, ← FileTree.start_join tree _ habsolute]
    have hmakeable := (FileTree.made_of_makeDirectories hne hmade).makeable.start
    rwa [FileTree.start_parent tree hparent] at hmakeable

end Outputs

section Steps

variable {directory : Location} {v : World} {file : SourceFile}
  (hreceives : p.Receives directory v.files) (hnamed : file.Named)

include hreceives hnamed

theorem repeatable_outputPath : Run.Repeatable directory (p.outputPath file) v := by
  unfold outputPath
  dsimp only
  split
  · exact Run.repeatable_pure _ hreceives.wellFormed
  · next parent hparent =>
    refine .bind (Run.repeatable_changeFiles fun changed hmade => ?_) fun _ mid _ _ hwell =>
      Run.repeatable_pure _ hwell
    refine ⟨?_, hreceives.wellFormed.made hmade, fun last again hlast hbound hrepeats =>
      hrepeats.makeDirectories hlast hmade hbound⟩
    by_cases hempty : parent.text = []
    · rw [FileTree.makeDirectories_empty hempty] at hmade
      obtain ⟨-, rfl⟩ := Prod.mk.inj hmade
      exact .refl directory v.files
    · exact FileTree.grown_makeDirectories hempty hmade fun location hlocation houtside =>
        node?_of_way_parent hreceives hnamed hparent hempty hmade hlocation houtside

/-- After the directories for an output were made, the output can be put at its target. -/
theorem repeatable_outputPath_bind {α : Type} {next : Path → Run α}
    (hnext : ∀ mid, FileTree.Grown directory v.files mid.files →
      p.Receives directory mid.files → Run.Repeatable directory (next (p.target file)) mid) :
    Run.Repeatable directory (p.outputPath file >>= next) v := by
  refine .bind (repeatable_outputPath hreceives hnamed) fun path mid hexec hgrown hwell => ?_
  obtain ⟨rfl, -⟩ := outputPath_eq_ok hexec
  exact hnext mid hgrown (hreceives.grown hgrown hwell)

theorem repeatable_writeOutput (hdry : p.settings.dryRun = false) (output : Text) :
    Run.Repeatable directory (p.writeOutput file output) v := by
  refine Run.repeatable_of_ok fun _ written hexec => ?_
  have hname : file.relative.text ≠ [] := by
    obtain ⟨made, -, hmade⟩ := FileTree.install_eq_ok (writeOutput_eq_ok hdry hexec).1
    exact FileTree.ne_nil_of_write_join hmade
  unfold writeOutput
  rw [if_neg (by rw [hdry]; decide)]
  refine repeatable_outputPath_bind hreceives hnamed fun mid hgrown hmid => ?_
  refine .bind (Run.repeatable_note _ _ hmid.wellFormed) fun _ noted hnote hgrown' hwell => ?_
  have hnoted := hmid.grown hgrown' hwell
  refine Run.repeatable_changeFiles fun changed hsettle => ?_
  have hwrite := FileTree.settle_eq_ok_iff.1 hsettle
  refine ⟨FileTree.grown_write (isBelow_target hnoted hnamed hname) hwrite,
    FileTree.wellFormed_write hwell hwrite, fun last again hlast hbound hrepeats => ?_⟩
  obtain ⟨changed', hwrite', hafter⟩ := hrepeats.write hwrite hbound
  exact ⟨changed', FileTree.settle_eq_ok_iff.2 hwrite', hafter⟩

theorem repeatable_copyFile (hdry : p.settings.dryRun = false)
    (hsource : Location.isAtOrBelow directory (v.files.place file.path) = false) :
    Run.Repeatable directory (p.copyFile file) v := by
  refine Run.repeatable_of_ok fun _ copied hexec => ?_
  have hname : file.relative.text ≠ [] := by
    obtain ⟨made, -, hmade⟩ := copyFile_eq_ok hdry hexec
    exact FileTree.ne_nil_of_copy_join hmade
  unfold copyFile
  rw [if_neg (by rw [hdry]; decide)]
  refine repeatable_outputPath_bind hreceives hnamed fun mid hgrown hmid => ?_
  refine .bind (Run.repeatable_note _ _ hmid.wellFormed) fun _ noted hnote hgrown' hwell => ?_
  have hnoted := hmid.grown hgrown' hwell
  rw [← FileTree.place_eq (hgrown.trans hgrown').within.workingDirectory] at hsource
  have htarget := isBelow_target hnoted hnamed hname
  refine Run.repeatable_changeFiles fun changed hsettle => ?_
  have hcopy := FileTree.settle_eq_ok_iff.1 hsettle
  refine ⟨FileTree.grown_copy htarget hcopy, FileTree.wellFormed_copy hwell hcopy,
    fun last again hlast hbound hrepeats => ?_⟩
  obtain ⟨changed', hcopy', hafter⟩ := hrepeats.copy hsource htarget hcopy hbound
  exact ⟨changed', FileTree.settle_eq_ok_iff.2 hcopy', hafter⟩

end Steps

/-! ## The line pass -/

/-- The files that are included while a file is processed in this world stand elsewhere than at or
below the directory. -/
def IncludesOutside (p : Preprocessor) (directory : Location) (v : World) (file : Path)
    (t : Text) : Prop :=
  ∀ chain f u begun, Visits ⟨p.settings.marker, v.files, p.extension⟩ file t
      ⟨{}, v.globals, v.actions, []⟩ chain f u begun → chain ≠ [] →
    Location.isAtOrBelow directory (v.files.place f) = false

section Passes

variable {directory : Location} {v : World}

theorem repeatable_process {file : Path} {t : Text} (hwell : v.files.WellFormed)
    (hexists : v.files.exists? file = true)
    (hincludes : p.IncludesOutside directory v file t) :
    Run.Repeatable directory (p.process file t) v := by
  intro output v' hexec
  obtain ⟨m, hpass, hfiles, hglobals, hactions⟩ := process_eq_ok hexec
  rw [hfiles]
  refine ⟨.refl directory v.files, hwell, fun last u _ _ hrepeats => ?_⟩
  have halike : HoldsAlike ⟨p.settings.marker, v.files, p.extension⟩ file t
      ⟨{}, v.globals, v.actions, []⟩ u.files := by
    refine ⟨hrepeats.files.within, hexists, fun chain f included begun hvisits hne => ?_⟩
    have hread : v.files.readText f = .ok included := readText_of_visits hvisits hne
    rw [FileTree.readText_eq_ok_iff] at hread ⊢
    exact hrepeats.files.within.read hread
      (hrepeats.files.outside _ (hincludes chain f included begun hvisits hne))
  have hagain : p.processIn u.files u.globals u.actions file t = (.ok output, m) := by
    rw [hrepeats.globals, hrepeats.actions]
    exact processFile_larger halike hpass
  refine ⟨{ u with globals := m.globals, actions := m.actions, log := u.log ++ m.log }, ?_, ?_⟩
  · rw [exec_process, hagain]
  · exact ⟨hfiles ▸ hrepeats.files, hglobals.symm, hactions.symm⟩

/-- What a file needs that is processed: it is there, and its path is made of names. -/
def Processable (tree : FileTree) (file : SourceFile) : Prop :=
  file.Named ∧ tree.exists? file.path = true

theorem Processable.mono {tree other : FileTree} {file : SourceFile} (h : Processable tree file)
    (hwithin : tree.Within other) : Processable other file := ⟨h.1, hwithin.exists? h.2⟩

/-- Files that are processed one after the other, each of which includes only files outside. -/
theorem repeatable_processAll (hdry : p.settings.dryRun = false) {excluded : List Path}
    {texts : List (SourceFile × Text)} :
    ∀ {v : World}, p.Receives directory v.files →
      (∀ scanned ∈ texts, Processable v.files scanned.1) →
      (∀ done file t rest n mid, texts = done ++ (file, t) :: rest →
        (p.processAll excluded done).exec v = (.ok n, mid) →
        excluded.any file.path.same = false → p.IncludesOutside directory mid file.path t) →
      Run.Repeatable directory (p.processAll excluded texts) v := by
  induction texts with
  | nil => exact fun hreceives _ _ => Run.repeatable_pure _ hreceives.wellFormed
  | cons head texts ih =>
    obtain ⟨file, t⟩ := head
    intro v hreceives hfiles hincludes
    rw [List.forall_mem_cons] at hfiles
    unfold processAll
    by_cases hexcluded : excluded.any file.path.same = true
    · rw [if_pos hexcluded]
      refine ih hreceives hfiles.2 fun done other u rest n mid hsplit hdone hkept => ?_
      refine hincludes ((file, t) :: done) other u rest n mid (by rw [hsplit]; rfl) ?_ hkept
      unfold processAll
      rwa [if_pos hexcluded]
    · rw [if_neg hexcluded]
      have hown := hincludes [] file t texts 0 v rfl rfl (Bool.eq_false_iff.2 hexcluded)
      refine .bind (repeatable_process hreceives.wellFormed hfiles.1.2 hown)
        fun output processed hprocess hgrown hwell => ?_
      have hprocessed := hreceives.grown hgrown hwell
      refine .bind (repeatable_writeOutput hprocessed hfiles.1.1 hdry output)
        fun _ written hwrite hgrown' hwell' => ?_
      have hwritten := hprocessed.grown hgrown' hwell'
      refine .bind (ih hwritten (fun scanned hscanned => ?_) ?_) fun _ _ _ _ hwell =>
        Run.repeatable_pure _ hwell
      · exact (hfiles.2 scanned hscanned).mono (hgrown.trans hgrown').within
      · intro done other u rest n mid hsplit hdone hkept
        refine hincludes ((file, t) :: done) other u rest (n + 1) mid (by rw [hsplit]; rfl) ?_ hkept
        unfold processAll
        rw [if_neg hexcluded, Run.exec_bind_of_ok hprocess, Run.exec_bind_of_ok hwrite,
          Run.exec_bind_of_ok hdone]
        rfl

theorem repeatable_copyAll (hdry : p.settings.dryRun = false) {files : List SourceFile} :
    ∀ {v : World}, p.Receives directory v.files →
      (∀ file ∈ files, file.Named ∧
        Location.isAtOrBelow directory (v.files.place file.path) = false) →
      Run.Repeatable directory (p.copyAll files) v := by
  induction files with
  | nil => exact fun hreceives _ => Run.repeatable_pure _ hreceives.wellFormed
  | cons file files ih =>
    intro v hreceives hfiles
    rw [List.forall_mem_cons] at hfiles
    unfold copyAll
    refine .bind (repeatable_copyFile hreceives hfiles.1.1 hdry hfiles.1.2)
      fun _ copied _ hgrown hwell => ih (hreceives.grown hgrown hwell) fun other hother => ?_
    rw [FileTree.place_eq hgrown.within.workingDirectory]
    exact hfiles.2 other hother

/-- The delivery can be repeated when what it reads stands outside. -/
theorem repeatable_deliver (hdry : p.settings.dryRun = false) {s : Survey}
    (hreceives : p.Receives directory v.files)
    (htexts : ∀ scanned ∈ s.texts, Processable v.files scanned.1)
    (hincludes : ∀ done file t rest n mid, s.texts = done ++ (file, t) :: rest →
      (p.processAll s.excluded done).exec v = (.ok n, mid) →
      s.excluded.any file.path.same = false → p.IncludesOutside directory mid file.path t)
    (hcopies : ∀ file ∈ p.withHandling .copy s.found, file.Named ∧
      Location.isAtOrBelow directory (v.files.place file.path) = false) :
    Run.Repeatable directory (p.deliver s) v := by
  unfold deliver
  refine .bind (repeatable_processAll hdry hreceives htexts hincludes)
    fun n processed _ hgrown hwell => ?_
  refine .bind (repeatable_copyAll hdry (hreceives.grown hgrown hwell) fun file hfile => ?_)
    fun _ copied _ _ hwell' => .bind (Run.repeatable_note _ _ hwell') fun _ _ _ _ hwell'' =>
      Run.repeatable_pure _ hwell''
  rw [FileTree.place_eq hgrown.within.workingDirectory]
  exact hcopies file hfile

end Passes

end Preprocessor

end SourcePreprocessor
