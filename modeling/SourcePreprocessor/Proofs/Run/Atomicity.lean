import SourcePreprocessor.Proofs.Run.Delivery

/-!
# What a failed run leaves behind

A run that fails before it writes leaves all files as they are. One that fails in the line pass over
a file has written the outputs of the files before it and nothing else. And a run that is asked not
to write does not, whether it fails or not:

> `run_failure`, for these three.

The first and the last come from following what each step leaves alone (`Run.Keeps`), the second
from what processing files one after the other leaves behind (`processAll_eq_ok`).
-/

namespace SourcePreprocessor

namespace Preprocessor

variable {p : Preprocessor}

/-! ## Runs that write nothing -/

section DryRun

variable (hdry : p.settings.dryRun = true)

include hdry

theorem keeps_prepareDestination : Run.Keeps World.files p.prepareDestination := by
  unfold prepareDestination
  rw [if_pos hdry]
  exact Run.keeps_pure _ ()

theorem keeps_writeOutput (file : SourceFile) (output : Text) :
    Run.Keeps World.files (p.writeOutput file output) := by
  unfold writeOutput
  rw [if_pos hdry]
  exact Run.keeps_pure _ ()

theorem keeps_copyFile (file : SourceFile) : Run.Keeps World.files (p.copyFile file) := by
  unfold copyFile
  rw [if_pos hdry]
  exact Run.keeps_pure _ ()

theorem keeps_processAll (excluded : List Path) (texts : List (SourceFile × Text)) :
    Run.Keeps World.files (p.processAll excluded texts) := by
  induction texts with
  | nil => exact Run.keeps_pure _ 0
  | cons head texts ih =>
    unfold processAll
    split
    · exact ih
    · exact .bind (p.keeps_process _ _) fun output => .bind (keeps_writeOutput hdry _ output)
        fun _ => .bind ih fun _ => Run.keeps_pure _ _

theorem keeps_copyAll (files : List SourceFile) : Run.Keeps World.files (p.copyAll files) := by
  induction files with
  | nil => exact Run.keeps_pure _ ()
  | cons file files ih =>
    unfold copyAll
    exact .bind (keeps_copyFile hdry file) fun _ => ih

/-- Each half of the run leaves the files alone. -/
theorem keeps_run : Run.Keeps World.files p.run := by
  rw [run_eq]
  refine .bind (fun w => congrArg Prod.fst (p.keeps_survey w)) fun s => .bind ?_ fun _ => ?_
  · exact .bind (keeps_prepareDestination hdry) fun _ _ => rfl
  · exact .bind (keeps_processAll hdry _ _) fun _ => .bind (keeps_copyAll hdry _) fun _ =>
      .bind (fun _ => rfl) fun _ => Run.keeps_pure _ _

end DryRun

/-! ## Runs that fail in the line pass -/

/-- A run surveys and prepares, processes some files and fails in the line pass over the next. -/
structure StopsAt (p : Preprocessor) (w : World) (s : Survey) (prepared : World)
    (done : List (SourceFile × Text)) (file : SourceFile) (d : Diagnostic) (failed : World) :
    Prop where
  ready : ∃ surveyed, p.survey.exec w = (.ok s, surveyed) ∧
    (p.prepare s).exec surveyed = (.ok (), prepared)
  included : s.excluded.any file.path.same = false
  stopped : ∃ t rest n processed, s.texts = done ++ (file, t) :: rest ∧
    (p.processAll s.excluded done).exec prepared = (.ok n, processed) ∧
    (p.process file.path t).exec processed = (.error d, failed)

theorem StopsAt.run_eq_error {w prepared failed : World} {s : Survey}
    {done : List (SourceFile × Text)} {file : SourceFile} {d : Diagnostic}
    (h : p.StopsAt w s prepared done file d failed) : p.run.exec w = (.error d, failed) := by
  obtain ⟨surveyed, hsurvey, hprepare⟩ := h.ready
  obtain ⟨t, rest, n, processed, htexts, hdone, hstop⟩ := h.stopped
  have hfails : (p.processAll s.excluded ((file, t) :: rest)).exec processed =
      (.error d, failed) := by
    unfold processAll
    rw [if_neg (by rw [h.included]; decide)]
    exact Run.exec_bind_of_error hstop
  rw [run_eq, Run.exec_bind_of_ok hsurvey, Run.exec_bind_of_ok hprepare]
  unfold deliver
  rw [htexts]
  exact Run.exec_bind_of_error (processAll_append_of_error hdone hfails)

/-- A run that fails in the line pass over a file leaves the outputs of the files before it. -/
theorem StopsAt.files_eq (hdry : p.settings.dryRun = false) {w prepared failed : World} {s : Survey}
    {done : List (SourceFile × Text)} {file : SourceFile} {d : Diagnostic}
    (h : p.StopsAt w s prepared done file d failed) :
    ∃ outputs, p.linePass s.excluded done prepared.files prepared.globals prepared.actions =
        .ok outputs ∧
      outputs.map Prod.fst =
        (done.map Prod.fst).filter (fun file => !s.excluded.any file.path.same) ∧
      prepared.files.installAll ((outputFiles outputs).map fun file => (p.target file.1, file.2)) =
        (.ok (), failed.files) := by
  obtain ⟨t, rest, n, processed, -, hdone, hstop⟩ := h.stopped
  obtain ⟨outputs, hpass, -, hfiles, hinstall⟩ := processAll_eq_ok hdry hdone
  refine ⟨outputs, hpass, hfiles, ?_⟩
  rw [(p.keeps_process file.path t).eq hstop]
  exact hinstall

/-- **What a failed run leaves behind.** When the survey fails, so does the run, and no file has
changed. When the line pass over a file fails, the run has installed the outputs of the files before
it that are not left out, on top of the destination that was made ready, and nothing else: of these
outputs the last one at each place counts, and every other file is as it was made ready. A run that
is asked not to write changes no file. -/
theorem run_failure (p : Preprocessor) (w : World) :
    (∀ d failed, p.survey.exec w = (.error d, failed) →
      p.run.exec w = (.error d, failed) ∧ failed.files = w.files) ∧
    (p.settings.dryRun = false → ∀ s prepared done file d failed,
      p.StopsAt w s prepared done file d failed →
        p.run.exec w = (.error d, failed) ∧
        ∃ outputs, p.linePass s.excluded done prepared.files prepared.globals prepared.actions =
            .ok outputs ∧
          outputs.map Prod.fst =
            (done.map Prod.fst).filter (fun file => !s.excluded.any file.path.same) ∧
          prepared.files.installAll
            ((outputFiles outputs).map fun file => (p.target file.1, file.2)) =
              (.ok (), failed.files) ∧
          ∀ location, failed.files.file? location =
            (FileTree.lastAt ((outputFiles outputs).map fun file =>
              (prepared.files.place (p.target file.1), file.2)) location).or
                (prepared.files.file? location)) ∧
    (p.settings.dryRun = true → (p.run.exec w).2.files = w.files) := by
  refine ⟨fun d failed hsurvey => ?_, fun hdry s prepared done file d failed hstops => ?_,
    fun hdry => keeps_run hdry w⟩
  · refine ⟨?_, congrArg Prod.fst (p.keeps_survey.eq hsurvey)⟩
    rw [run_eq]
    exact Run.exec_bind_of_error hsurvey
  · obtain ⟨outputs, hpass, hfiles, hinstall⟩ := hstops.files_eq hdry
    refine ⟨hstops.run_eq_error, outputs, hpass, hfiles, hinstall, fun location => ?_⟩
    have hwritten := FileTree.written_installAll hinstall
    rw [List.map_map] at hwritten
    exact hwritten.file? location

end Preprocessor

/-! ## Three runs over a small tree -/

/-- A source directory with a file to process, one that closes a block which it did not open, and a
file to copy. -/
def brokenWorld : World where
  globals := .empty
  files :=
    { entries := [(["src".toList], .directory),
        (["src".toList, "a.txt".toList], .file (.text ['a'])),
        (["src".toList, "b.txt".toList], .file (.text "//#endif".toList)),
        (["src".toList, "c".toList], .file (.bytes [255]))]
      workingDirectory := [] }
  actions := []
  log := []

/-- A run from the given directory. -/
def runFrom (source : Text) (dryRun : Bool) : Preprocessor where
  settings := { sources := [⟨source⟩], destination := ⟨"out".toList⟩, dryRun }
  extension := none

/-- The run from the source directory. -/
def brokenRun : Preprocessor := runFrom "src".toList false

/-- What it finds out. -/
def brokenSurvey : Survey := (brokenRun.survey.exec brokenWorld).1.toOption.getD ⟨[], [], [], []⟩

/-- The world in which its destination is ready. -/
def brokenPrepared : World :=
  ((brokenRun.prepare brokenSurvey).exec (brokenRun.survey.exec brokenWorld).2).2

/-- The file that it processes first. -/
def brokenDone : List (SourceFile × Text) :=
  [(⟨⟨"src/a.txt".toList⟩, ⟨"a.txt".toList⟩⟩, ['a'])]

/-- The world after that file. -/
def brokenProcessed : World :=
  ((brokenRun.processAll brokenSurvey.excluded brokenDone).exec brokenPrepared).2

/-- The run stops at the second file, after it processed the first one. -/
theorem brokenRun_stopsAt : ∃ d failed, brokenRun.StopsAt brokenWorld brokenSurvey brokenPrepared
    brokenDone ⟨⟨"src/b.txt".toList⟩, ⟨"b.txt".toList⟩⟩ d failed := by
  have hsurvey : (brokenRun.survey.exec brokenWorld).1.toOption = some brokenSurvey := by
    have hsome : (brokenRun.survey.exec brokenWorld).1.toOption.isSome = true := by decide +kernel
    obtain ⟨s, hs⟩ := Option.isSome_iff_exists.1 hsome
    rw [brokenSurvey, hs]
    rfl
  have hprepare : ((brokenRun.prepare brokenSurvey).exec
      (brokenRun.survey.exec brokenWorld).2).1.toOption = some () := by decide +kernel
  have hdone : ((brokenRun.processAll brokenSurvey.excluded brokenDone).exec
      brokenPrepared).1.toOption = some 1 := by decide +kernel
  have hstop : ((brokenRun.process ⟨"src/b.txt".toList⟩ "//#endif".toList).exec
      brokenProcessed).1.toOption = none := by decide +kernel
  have htexts : brokenSurvey.texts = brokenDone ++
      [(⟨⟨"src/b.txt".toList⟩, ⟨"b.txt".toList⟩⟩, "//#endif".toList)] := by decide +kernel
  obtain ⟨d, hfails⟩ := Run.exec_eq_of_toOption_eq_none hstop
  exact ⟨d, _, ⟨_, Run.exec_eq_of_toOption hsurvey, Run.exec_eq_of_toOption hprepare⟩,
    by decide +kernel, _, [], 1, _, htexts, Run.exec_eq_of_toOption hdone, hfails⟩

/-- A run whose source directory is missing, one that stops at a file, one that writes nothing. -/
theorem runFrom_failure :
    (∃ d failed, (runFrom "none".toList false).run.exec brokenWorld = (.error d, failed) ∧
      failed.files = brokenWorld.files) ∧
    (∃ d failed outputs, brokenRun.run.exec brokenWorld = (.error d, failed) ∧
      outputs.map Prod.fst = (brokenDone.map Prod.fst).filter
        (fun file => !brokenSurvey.excluded.any file.path.same) ∧
      brokenPrepared.files.installAll ((Preprocessor.outputFiles outputs).map fun file =>
        (brokenRun.target file.1, file.2)) = (.ok (), failed.files)) ∧
    ((runFrom "src".toList true).run.exec brokenWorld).2.files = brokenWorld.files := by
  refine ⟨?_, ?_, (Preprocessor.run_failure _ _).2.2 rfl⟩
  · have hsurvey : ((runFrom "none".toList false).survey.exec brokenWorld).1.toOption.isNone =
        true := by decide +kernel
    obtain ⟨d, hfails⟩ := Run.exec_eq_of_toOption_eq_none (Option.isNone_iff_eq_none.1 hsurvey)
    exact ⟨d, _, (Preprocessor.run_failure _ _).1 d _ hfails⟩
  · obtain ⟨d, failed, hstops⟩ := brokenRun_stopsAt
    obtain ⟨hrun, outputs, -, hfiles, hinstall, -⟩ :=
      (Preprocessor.run_failure _ _).2.1 rfl _ _ _ _ d failed hstops
    exact ⟨d, failed, outputs, hrun, hfiles, hinstall⟩

end SourcePreprocessor
