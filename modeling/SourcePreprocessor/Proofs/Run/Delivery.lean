import SourcePreprocessor.Proofs.Run.Phases

/-!
# What a run writes

The second half of a run goes from world to world: each file is processed with the variables that
the file before it left, and its output is written before the next one is processed, so a file can
include what was written for another one. `linePass` is that computation without the world around
it. It depends on the files, the variables and the actions of the extension, and not on the log.

> `processAll_eq_ok`: processing files writes what the line pass over them gives, in order;
> `copyAll_eq_ok`: copying files writes what each of them holds when it is copied;
> `prepareDestination_eq_ok`: making the destination ready takes away the files below it when it is
> there to be cleared, and changes no other file.
-/

namespace SourcePreprocessor

namespace Preprocessor

variable {p : Preprocessor} {w w' : World}

/-- The path of the output of a file. -/
def target (p : Preprocessor) (file : SourceFile) : Path :=
  p.settings.destination.join file.relative

/-! ## The line pass -/

/-- What the line pass over a file gives, and the machine at its end, when the log is empty. -/
def processIn (p : Preprocessor) (tree : FileTree) (globals : Table) (actions : List Action)
    (file : Path) (t : Text) : Except Diagnostic Text × Machine :=
  processFile ⟨p.settings.marker, tree, p.extension⟩ p.settings file t ⟨{}, globals, actions, []⟩

/-- The outputs of files that are processed one after the other, starting from the given files,
variables and actions. Each output is in place before the next file is processed. -/
def linePass (p : Preprocessor) (excluded : List Path) :
    List (SourceFile × Text) → FileTree → Table → List Action →
      Except Diagnostic (List (SourceFile × Text))
  | [], _, _, _ => .ok []
  | (file, t) :: files, tree, globals, actions =>
    if excluded.any file.path.same then p.linePass excluded files tree globals actions
    else
      match p.processIn tree globals actions file.path t with
      | (.error d, _) => .error d
      | (.ok output, m) => do
        let outputs ← p.linePass excluded files
          (tree.install (p.target file) (.text output)).2 m.globals m.actions
        return (file, output) :: outputs

theorem exec_process (p : Preprocessor) (file : Path) (t : Text) (w : World) :
    (p.process file t).exec w =
      ((p.processIn w.files w.globals w.actions file t).1,
        { w with
          globals := (p.processIn w.files w.globals w.actions file t).2.globals
          actions := (p.processIn w.files w.globals w.actions file t).2.actions
          log := w.log ++ (p.processIn w.files w.globals w.actions file t).2.log }) := by
  have hlog : (⟨{}, w.globals, w.actions, w.log⟩ : Machine) =
      Machine.behind w.log ⟨{}, w.globals, w.actions, []⟩ := by
    unfold Machine.behind
    rw [List.append_nil]
  unfold process
  rw [Run.exec_bind_of_ok (Run.exec_get w)]
  dsimp only
  rw [hlog, processFile_behind]
  rfl

theorem process_eq_ok {file : Path} {t output : Text}
    (h : (p.process file t).exec w = (.ok output, w')) :
    ∃ m, p.processIn w.files w.globals w.actions file t = (.ok output, m) ∧
      w'.files = w.files ∧ w'.globals = m.globals ∧ w'.actions = m.actions := by
  rw [exec_process] at h
  obtain ⟨hresult, rfl⟩ := Prod.mk.inj h
  exact ⟨_, Prod.ext hresult rfl, rfl, rfl, rfl⟩

theorem keeps_process (p : Preprocessor) (file : Path) (t : Text) :
    Run.Keeps World.files (p.process file t) := fun _ => rfl

/-! ## Writing -/

theorem makeDirectories_eq_ok {path : Path}
    (h : (Run.changeFiles path (·.makeDirectories path)).exec w = (.ok (), w')) :
    w.files.makeDirectories path = (.ok (), w'.files) ∧ w.files.Written [] w'.files ∧
      w'.globals = w.globals ∧ w'.actions = w.actions := by
  obtain ⟨hmade, hrest⟩ := Run.changeFiles_eq_ok h
  have hwritten := FileTree.written_makeDirectories w.files path
  rw [hmade] at hwritten
  exact ⟨hmade, hwritten, hrest⟩

/-- Making the directories for an output is the first half of installing it. -/
theorem outputPath_eq_ok {file : SourceFile} {path : Path}
    (h : (p.outputPath file).exec w = (.ok path, w')) :
    path = p.target file ∧ w.files.Written [] w'.files ∧
      (∀ content, w.files.install path content = w'.files.settle (w'.files.write path content)) ∧
      w'.globals = w.globals ∧ w'.actions = w.actions := by
  unfold outputPath at h
  unfold FileTree.install
  dsimp only at h
  split at h
  · next hparent =>
    obtain ⟨hok, rfl⟩ := Prod.mk.inj h
    obtain rfl := Except.ok.inj hok
    exact ⟨rfl, .refl _, fun content => by rw [hparent], rfl, rfl⟩
  · next parent hparent =>
    obtain ⟨_, made, hmake, h⟩ := Run.exec_bind_eq_ok_iff.1 h
    obtain ⟨hok, rfl⟩ := Prod.mk.inj h
    obtain rfl := Except.ok.inj hok
    obtain ⟨hmade, hwritten, hglobals, hactions⟩ := makeDirectories_eq_ok hmake
    refine ⟨rfl, hwritten, fun content => ?_, hglobals, hactions⟩
    rw [hparent]
    dsimp only
    rw [hmade]

theorem writeOutput_eq_ok (hdry : p.settings.dryRun = false) {file : SourceFile} {output : Text}
    (h : (p.writeOutput file output).exec w = (.ok (), w')) :
    w.files.install (p.target file) (.text output) = (.ok (), w'.files) ∧
      w'.globals = w.globals ∧ w'.actions = w.actions := by
  unfold writeOutput at h
  rw [if_neg (by rw [hdry]; decide)] at h
  obtain ⟨path, made, hpath, h⟩ := Run.exec_bind_eq_ok_iff.1 h
  obtain ⟨rfl, -, hinstall, hglobals, hactions⟩ := outputPath_eq_ok hpath
  rw [Run.exec_bind_of_ok (Run.exec_note _ _ made)] at h
  obtain ⟨hwrite, hglobals', hactions'⟩ := Run.changeFiles_eq_ok h
  exact ⟨(hinstall _).trans hwrite, hglobals'.trans hglobals, hactions'.trans hactions⟩

/-- Outputs as the files that they are written to. -/
def outputFiles (outputs : List (SourceFile × Text)) : List (SourceFile × Content) :=
  outputs.map fun output => (output.1, .text output.2)

/-- Files that are processed one after the other leave behind what the line pass over them gives. -/
theorem processAll_eq_ok (hdry : p.settings.dryRun = false) {excluded : List Path}
    {texts : List (SourceFile × Text)} :
    ∀ {w w' : World} {n : Nat}, (p.processAll excluded texts).exec w = (.ok n, w') →
      ∃ outputs, p.linePass excluded texts w.files w.globals w.actions = .ok outputs ∧
        outputs.length = n ∧
        outputs.map Prod.fst =
          (texts.map Prod.fst).filter (fun file => !excluded.any file.path.same) ∧
        w.files.installAll ((outputFiles outputs).map fun file => (p.target file.1, file.2)) =
          (.ok (), w'.files) := by
  induction texts with
  | nil =>
    intro w w' n h
    obtain ⟨hok, rfl⟩ := Prod.mk.inj h
    obtain rfl := Except.ok.inj hok
    exact ⟨[], rfl, rfl, rfl, rfl⟩
  | cons head texts ih =>
    obtain ⟨file, t⟩ := head
    intro w w' n h
    unfold processAll at h
    by_cases hexcluded : excluded.any file.path.same = true
    · rw [if_pos hexcluded] at h
      obtain ⟨outputs, hpass, hlength, hfiles, hinstall⟩ := ih h
      refine ⟨outputs, ?_, hlength, ?_, hinstall⟩
      · rw [linePass, if_pos hexcluded, hpass]
      · rw [hfiles, List.map_cons, List.filter_cons_of_neg (by simp [hexcluded])]
    · rw [if_neg hexcluded] at h
      obtain ⟨output, processed, hprocess, h⟩ := Run.exec_bind_eq_ok_iff.1 h
      obtain ⟨_, written, hwrite, h⟩ := Run.exec_bind_eq_ok_iff.1 h
      obtain ⟨m, last, hrest, h⟩ := Run.exec_bind_eq_ok_iff.1 h
      obtain ⟨hok, rfl⟩ := Prod.mk.inj h
      obtain rfl := Except.ok.inj hok
      obtain ⟨machine, hmachine, hkept, hglobals, hactions⟩ := process_eq_ok hprocess
      obtain ⟨hfirst, hglobals', hactions'⟩ := writeOutput_eq_ok hdry hwrite
      rw [hkept] at hfirst
      obtain ⟨outputs, hpass, hlength, hfiles, hinstall⟩ := ih hrest
      rw [hglobals', hglobals, hactions', hactions] at hpass
      refine ⟨(file, output) :: outputs, ?_, congrArg (· + 1) hlength, ?_, ?_⟩
      · rw [linePass, if_neg hexcluded, hmachine]
        dsimp only
        rw [hfirst, hpass]
        rfl
      · rw [List.map_cons, hfiles, List.map_cons, List.filter_cons_of_pos (by simp [hexcluded])]
      · exact (FileTree.installAll_cons hfirst _).trans hinstall

/-- What fails after some files were processed fails with the files together. -/
theorem processAll_append_of_error {excluded : List Path} {first second : List (SourceFile × Text)}
    {after : World} {d : Diagnostic} :
    ∀ {w : World} {n : Nat}, (p.processAll excluded first).exec w = (.ok n, after) →
      (p.processAll excluded second).exec after = (.error d, w') →
        (p.processAll excluded (first ++ second)).exec w = (.error d, w') := by
  induction first with
  | nil =>
    intro w n h hsecond
    obtain ⟨-, rfl⟩ := Prod.mk.inj h
    exact hsecond
  | cons head first ih =>
    obtain ⟨file, t⟩ := head
    intro w n h hsecond
    rw [List.cons_append]
    unfold processAll at h ⊢
    by_cases hexcluded : excluded.any file.path.same = true
    · rw [if_pos hexcluded] at h ⊢
      exact ih h hsecond
    · rw [if_neg hexcluded] at h ⊢
      obtain ⟨output, processed, hprocess, h⟩ := Run.exec_bind_eq_ok_iff.1 h
      obtain ⟨_, written, hwrite, h⟩ := Run.exec_bind_eq_ok_iff.1 h
      obtain ⟨m, last, hrest, h⟩ := Run.exec_bind_eq_ok_iff.1 h
      obtain ⟨-, rfl⟩ := Prod.mk.inj h
      rw [Run.exec_bind_of_ok hprocess, Run.exec_bind_of_ok hwrite]
      exact Run.exec_bind_of_error (ih hrest hsecond)

/-! ## Copying -/

theorem copyFile_eq_ok (hdry : p.settings.dryRun = false) {file : SourceFile}
    (h : (p.copyFile file).exec w = (.ok (), w')) :
    ∃ made, w.files.Written [] made ∧ made.copy file.path (p.target file) = .ok w'.files := by
  unfold copyFile at h
  rw [if_neg (by rw [hdry]; decide)] at h
  obtain ⟨path, made, hpath, h⟩ := Run.exec_bind_eq_ok_iff.1 h
  obtain ⟨rfl, hmade, -⟩ := outputPath_eq_ok hpath
  rw [Run.exec_bind_of_ok (Run.exec_note _ _ made)] at h
  obtain ⟨hcopy, -⟩ := Run.changeFiles_eq_ok h
  exact ⟨made.files, hmade, FileTree.settle_eq_ok_iff.1 hcopy⟩

/-- Copying files one after the other, none of them onto itself, writes the content that each of
them has then. A file to which no copy goes still has the content that it had at the start. -/
theorem copyAll_eq_ok (hdry : p.settings.dryRun = false) {files : List SourceFile} :
    ∀ {w w' : World}, (p.copyAll files).exec w = (.ok (), w') →
      (∀ file ∈ files, file.relative.text ≠ [] →
        w.files.place file.path ≠ w.files.place (p.target file)) →
      ∃ copied : List (SourceFile × Content), copied.map Prod.fst = files ∧
        (∀ copy ∈ copied, copy.1.relative.text ≠ []) ∧
        (∀ copy ∈ copied, (∀ other ∈ copied,
            w.files.place copy.1.path ≠ w.files.place (p.target other.1)) →
          w.files.file? (w.files.place copy.1.path) = some copy.2) ∧
        w.files.Written (copied.map fun copy => (w.files.place (p.target copy.1), copy.2))
          w'.files := by
  induction files with
  | nil =>
    intro w w' h hself
    obtain ⟨-, rfl⟩ := Prod.mk.inj h
    exact ⟨[], rfl, nofun, nofun, .refl _⟩
  | cons file files ih =>
    intro w w' h hself
    unfold copyAll at h
    obtain ⟨_, after, hcopy, h⟩ := Run.exec_bind_eq_ok_iff.1 h
    obtain ⟨made, hmade, hcopied⟩ := copyFile_eq_ok hdry hcopy
    have hname := FileTree.ne_nil_of_copy_join hcopied
    have hplaces := fun path => FileTree.place_eq hmade.workingDirectory path
    obtain ⟨content, hread, hwritten⟩ := FileTree.written_copy hcopied (by
      rw [hplaces, hplaces]
      exact hself file List.mem_cons_self hname)
    have hfirst : w.files.Written [(w.files.place (p.target file), content)] after.files := by
      rw [← hplaces]
      exact hmade.trans hwritten
    have hcontent : w.files.file? (w.files.place file.path) = some content := by
      rw [← FileTree.read_eq_ok hread, hmade.file?, hplaces]
      rfl
    have hafter := fun path => FileTree.place_eq hfirst.workingDirectory path
    obtain ⟨copied, hfiles, hnames, hcontents, hothers⟩ := ih h (by
      intro file hfile
      rw [hafter, hafter]
      exact hself file (List.mem_cons_of_mem _ hfile))
    simp only [hafter] at hcontents hothers
    refine ⟨(file, content) :: copied, congrArg (file :: ·) hfiles, ?_, ?_, hfirst.trans hothers⟩
    · intro copy hcopy
      obtain rfl | hcopy := List.mem_cons.1 hcopy
      · exact hname
      · exact hnames copy hcopy
    · intro copy hcopy hapart
      obtain rfl | hcopy := List.mem_cons.1 hcopy
      · exact hcontent
      · -- the first copy did not go there either
        have hheld := hcontents copy hcopy fun other hother =>
          hapart other (List.mem_cons_of_mem _ hother)
        rwa [hfirst.file?, FileTree.lastAt_singleton, if_neg (hapart _ List.mem_cons_self),
          Option.none_or] at hheld

/-! ## The destination -/

/-- Whether the destination is removed before anything is written. -/
def clears (p : Preprocessor) (tree : FileTree) : Bool :=
  p.settings.clear && tree.exists? p.settings.destination

/-- What making the destination ready does to the files. -/
structure Prepared (p : Preprocessor) (tree prepared : FileTree) : Prop where
  workingDirectory : prepared.workingDirectory = tree.workingDirectory
  file? : ∀ location, prepared.file? location =
    if p.clears tree && Location.isAtOrBelow (tree.place p.settings.destination) location then none
    else tree.file? location
  /-- What is cleared is a directory. -/
  directory : p.clears tree = true → tree.file? (tree.place p.settings.destination) = none

theorem prepareDestination_eq_ok (hdry : p.settings.dryRun = false)
    (h : p.prepareDestination.exec w = (.ok (), w')) :
    p.Prepared w.files w'.files ∧ w'.globals = w.globals ∧ w'.actions = w.actions := by
  unfold prepareDestination at h
  rw [if_neg (by rw [hdry]; decide)] at h
  dsimp only at h
  have hcondition : (p.settings.clear && w.files.exists? p.settings.destination) =
      p.clears w.files := rfl
  rw [Run.exec_bind_of_ok (Run.exec_get w), hcondition] at h
  by_cases hclears : p.clears w.files = true
  · rw [if_pos hclears, Run.exec_bind_of_ok (Run.exec_note _ _ w)] at h
    obtain ⟨_, cleared, hclear, h⟩ := Run.exec_bind_eq_ok_iff.1 h
    obtain ⟨hremoved, hglobals, hactions⟩ := Run.changeFiles_eq_ok hclear
    obtain ⟨hwd, hdirectory, hfiles⟩ := FileTree.file?_removeDirectory hremoved
    obtain ⟨-, hmade, hglobals', hactions'⟩ := makeDirectories_eq_ok h
    refine ⟨⟨hmade.workingDirectory.trans hwd, fun location => ?_, fun _ => hdirectory⟩,
      hglobals'.trans hglobals, hactions'.trans hactions⟩
    rw [hmade.file?, hclears, Bool.true_and]
    exact hfiles location
  · rw [if_neg hclears] at h
    obtain ⟨-, hmade, hglobals, hactions⟩ := makeDirectories_eq_ok h
    refine ⟨⟨hmade.workingDirectory, fun location => ?_, (absurd · hclears)⟩, hglobals, hactions⟩
    rw [hmade.file?, Bool.eq_false_iff.2 hclears]
    rfl

theorem prepare_eq_ok (hdry : p.settings.dryRun = false) {s : Survey}
    (h : (p.prepare s).exec w = (.ok (), w')) :
    p.Prepared w.files w'.files ∧ w'.globals = w.globals ∧ w'.actions = w.actions := by
  obtain ⟨_, prepared, hprepare, h⟩ := Run.exec_bind_eq_ok_iff.1 h
  obtain ⟨hprepared, hrest⟩ := prepareDestination_eq_ok hdry hprepare
  obtain ⟨-, rfl⟩ := Prod.mk.inj h
  exact ⟨hprepared, hrest⟩

end Preprocessor

end SourcePreprocessor
