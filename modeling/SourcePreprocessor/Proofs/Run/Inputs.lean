import SourcePreprocessor.Proofs.File.WellFormed
import SourcePreprocessor.Proofs.Run.Atomicity

/-!
# What a run does to its own sources

A run reads the files below its source directories and writes below the destination. Nothing but the
walk keeps the two apart: it does not enter the destination. That protects a destination inside a
source directory, once it can be followed, and nothing else.

> `run_keeps_inputs`: whether the run succeeds or fails, a file that it found still holds what it
> held, unless it stands below a destination that is cleared or an output goes to its place
> (`Spared`); and when no source is at or below the destination, and the destination can be followed
> or nothing stands at its place, this spares all of them.
>
> `run_overwrites`: a source directory below the destination is not protected, and a run from there
> can overwrite a file that it found.

A statement about every outcome needs what each step preserves also when it fails (`Run.Preserves`).
-/

namespace SourcePreprocessor

/-! ## What every outcome of a step preserves -/

namespace Run

variable {α β γ : Type} {step : Run α} {next : α → Run β} {P : World → Prop}

/-- Whether it succeeds or not, a step from a world with the property leaves one. -/
def Preserves (P : World → Prop) (step : Run α) : Prop := ∀ w, P w → P (step.exec w).2

theorem Keeps.preserves {view : World → γ} (h : Keeps view step) (Q : γ → Prop) :
    Preserves (fun w => Q (view w)) step := by
  intro w hw
  show Q (view _)
  rwa [h w]

/-- The world that a chain of steps leaves is that of a first step that fails, or that of the
rest. -/
theorem exec_bind_leaves {w : World} (hfail : ∀ d after, step.exec w = (.error d, after) → P after)
    (hgo : ∀ a after, step.exec w = (.ok a, after) → P ((next a).exec after).2) :
    P ((step >>= next).exec w).2 := by
  match hexec : step.exec w with
  | (.error d, after) => exact exec_bind_of_error hexec ▸ hfail d after hexec
  | (.ok a, after) => exact exec_bind_of_ok hexec ▸ hgo a after hexec

theorem Preserves.eq (h : Preserves P step) {w w' : World} {result : Except Diagnostic α} (hw : P w)
    (hexec : step.exec w = (result, w')) : P w' := by
  have hafter := h w hw
  rwa [hexec] at hafter

theorem Preserves.bind (hstep : Preserves P step) (hnext : ∀ a, Preserves P (next a)) :
    Preserves P (step >>= next) := fun _ hw =>
  exec_bind_leaves (fun _ _ hexec => hstep.eq hw hexec)
    fun a after hexec => hnext a after (hstep.eq hw hexec)

end Run

namespace FileTree

variable {tree : FileTree} {location : Location}

/-- The file at a location is as it was, and paths lead where they did. -/
def Unharmed (tree : FileTree) (location : Location) (after : FileTree) : Prop :=
  after.workingDirectory = tree.workingDirectory ∧ after.file? location = tree.file? location

theorem Unharmed.written {before after : FileTree} {writes : List (Location × Content)}
    (h : tree.Unharmed location before) (hwritten : before.Written writes after)
    (hapart : ∀ write ∈ writes, write.1 ≠ location) : tree.Unharmed location after := by
  refine ⟨hwritten.workingDirectory.trans h.1, ?_⟩
  have hnone : lastAt writes location = none :=
    List.lookup_eq_none_iff.2 fun write hwrite =>
      bne_iff_ne.2 (hapart write (List.mem_reverse.1 hwrite)).symm
  rw [hwritten.file?, hnone, Option.none_or, h.2]

/-- A copy writes to the place of its target and nowhere else. -/
theorem written_copy_target {changed : FileTree} {source target : Path}
    (h : tree.copy source target = .ok changed) :
    ∃ writes, tree.Written writes changed ∧ ∀ write ∈ writes, write.1 = tree.place target := by
  unfold copy at h
  split at h
  · nomatch h
  · obtain ⟨_, -, h⟩ := bind_eq_ok_iff.1 h
    obtain ⟨emptied, hempty, h⟩ := bind_eq_ok_iff.1 h
    obtain ⟨again, -, hwrite⟩ := bind_eq_ok_iff.1 h
    have hfirst := written_write hempty
    refine ⟨_, hfirst.trans (written_write hwrite), ?_⟩
    simp [place_eq hfirst.workingDirectory]

/-- Whatever comes of it, removing a directory harms no file outside of it. -/
theorem unharmed_removeDirectory (tree : FileTree) {path : Path}
    (h : ∀ rest, rest ≠ [] → location ≠ tree.place path ++ rest) :
    tree.Unharmed location (tree.removeDirectory path).2 := by
  unfold removeDirectory
  split
  · exact ⟨rfl, rfl⟩
  · next found hresolve =>
    obtain rfl := resolve_eq_ok hresolve
    split
    · next hdirectory =>
      have hcleared : tree.Unharmed location (tree.discard fun entry =>
          Location.isAtOrBelow (tree.place path) entry && entry ≠ tree.place path) := by
        refine ⟨rfl, ?_⟩
        rw [file?_discard, if_neg]
        intro hlost
        rw [Bool.and_eq_true, decide_eq_true_eq] at hlost
        obtain ⟨rest, rfl⟩ := Location.isAtOrBelow_iff.1 hlost.1
        exact h rest (by simpa using hlost.2) rfl
      dsimp only
      split
      · exact hcleared
      · exact hcleared
      · exact hcleared
      · exact hcleared
      · refine ⟨rfl, ?_⟩
        rw [file?_discard]
        split
        · next heq =>
          -- the directory itself is no file
          rw [of_decide_eq_true heq, file?, hdirectory]
          rfl
        · exact hcleared.2
    · exact ⟨rfl, rfl⟩

end FileTree

/-! ## The steps that write -/

/-- The file at a location is as it was in the tree. -/
abbrev World.Unharmed (tree : FileTree) (location : Location) (w : World) : Prop :=
  tree.Unharmed location w.files

namespace Run

variable {tree : FileTree} {location : Location}

theorem unharmed_of_keeps {α : Type} {step : Run α} (h : Keeps World.files step) :
    Preserves (World.Unharmed tree location) step := h.preserves (tree.Unharmed location)

theorem unharmed_changeFiles {path : Path} {change : FileTree → FileTree.Outcome}
    (h : ∀ before, tree.Unharmed location before → tree.Unharmed location (change before).2) :
    Preserves (World.Unharmed tree location) (changeFiles path change) :=
  fun w hw => h w.files hw

theorem unharmed_makeDirectories (path : Path) :
    Preserves (World.Unharmed tree location) (changeFiles path (·.makeDirectories path)) :=
  unharmed_changeFiles fun before hbefore =>
    hbefore.written (FileTree.written_makeDirectories before path) nofun

/-- A change that is made as a whole or not at all. -/
theorem unharmed_settle {path : Path} {change : FileTree → Except FileFault FileTree}
    (h : ∀ before after, tree.Unharmed location before → change before = .ok after →
      tree.Unharmed location after) :
    Preserves (World.Unharmed tree location)
      (changeFiles path fun files => files.settle (change files)) := by
  refine unharmed_changeFiles fun before hbefore => ?_
  cases hchange : change before with
  | error fault => exact hbefore
  | ok after => exact h before after hbefore hchange

end Run

namespace Preprocessor

variable {p : Preprocessor} {tree : FileTree} {location : Location}

/-- No output of the file goes to the location. -/
def Misses (p : Preprocessor) (tree : FileTree) (location : Location) (file : SourceFile) : Prop :=
  file.relative.text ≠ [] → tree.place (p.target file) ≠ location

section Writing

variable {file : SourceFile} (hmisses : p.Misses tree location file)

include hmisses

/-- What a file is written to under its name is no other location. -/
theorem unharmed_write {before after : FileTree} {content : Content}
    (hbefore : tree.Unharmed location before)
    (h : before.write (p.target file) content = .ok after) : tree.Unharmed location after := by
  refine hbefore.written (FileTree.written_write h) ?_
  simpa [FileTree.place_eq hbefore.1] using hmisses (FileTree.ne_nil_of_write_join h)

theorem unharmed_copy {before after : FileTree} (hbefore : tree.Unharmed location before)
    (h : before.copy file.path (p.target file) = .ok after) : tree.Unharmed location after := by
  obtain ⟨writes, hwritten, htarget⟩ := FileTree.written_copy_target h
  refine hbefore.written hwritten fun write hwrite => ?_
  rw [htarget write hwrite, FileTree.place_eq hbefore.1]
  exact hmisses (FileTree.ne_nil_of_copy_join h)

omit hmisses in
theorem unharmed_outputPath (file : SourceFile) :
    Run.Preserves (World.Unharmed tree location) (p.outputPath file) := by
  unfold outputPath
  dsimp only
  split
  · exact fun _ hw => hw
  · exact .bind (Run.unharmed_makeDirectories _) fun _ _ hw => hw

omit hmisses in
/-- What comes after the path of an output gets its target. -/
theorem unharmed_outputPath_bind {next : Path → Run Unit}
    (hnext : Run.Preserves (World.Unharmed tree location) (next (p.target file))) :
    Run.Preserves (World.Unharmed tree location) (p.outputPath file >>= next) := by
  intro w hw
  have hpath : Run.Preserves (World.Unharmed tree location) (p.outputPath file) :=
    unharmed_outputPath file
  refine Run.exec_bind_leaves (fun d after hexec => hpath.eq hw hexec) fun path after hexec => ?_
  obtain ⟨rfl, -⟩ := outputPath_eq_ok hexec
  exact hnext after (hpath.eq hw hexec)

theorem unharmed_writeOutput (output : Text) :
    Run.Preserves (World.Unharmed tree location) (p.writeOutput file output) := by
  unfold writeOutput
  split
  · exact fun _ hw => hw
  · exact unharmed_outputPath_bind <|
      .bind (Run.unharmed_of_keeps fun _ => rfl) fun _ =>
        Run.unharmed_settle fun _ _ => unharmed_write hmisses

theorem unharmed_copyFile : Run.Preserves (World.Unharmed tree location) (p.copyFile file) := by
  unfold copyFile
  split
  · exact fun _ hw => hw
  · exact unharmed_outputPath_bind <|
      .bind (Run.unharmed_of_keeps fun _ => rfl) fun _ =>
        Run.unharmed_settle fun _ _ => unharmed_copy hmisses

end Writing

theorem unharmed_processAll (excluded : List Path) {texts : List (SourceFile × Text)}
    (h : ∀ scanned ∈ texts, p.Misses tree location scanned.1) :
    Run.Preserves (World.Unharmed tree location) (p.processAll excluded texts) := by
  induction texts with
  | nil => exact fun _ hw => hw
  | cons head texts ih =>
    rw [List.forall_mem_cons] at h
    unfold processAll
    split
    · exact ih h.2
    · exact .bind (Run.unharmed_of_keeps (p.keeps_process _ _)) fun output =>
        .bind (unharmed_writeOutput h.1 output) fun _ => .bind (ih h.2) fun _ _ hw => hw

theorem unharmed_copyAll {files : List SourceFile}
    (h : ∀ file ∈ files, p.Misses tree location file) :
    Run.Preserves (World.Unharmed tree location) (p.copyAll files) := by
  induction files with
  | nil => exact fun _ hw => hw
  | cons file files ih =>
    rw [List.forall_mem_cons] at h
    unfold copyAll
    exact .bind (unharmed_copyFile h.1) fun _ => ih h.2

/-- Making the destination ready harms no file, except below a destination that is cleared. -/
theorem unharmed_prepareDestination {w : World} (hw : w.files = tree)
    (h : p.clears tree = true →
      ∀ rest, rest ≠ [] → location ≠ tree.place p.settings.destination ++ rest) :
    World.Unharmed tree location (p.prepareDestination.exec w).2 := by
  subst hw
  have hmake : Run.Preserves (World.Unharmed w.files location)
      (Run.changeFiles p.settings.destination (·.makeDirectories p.settings.destination)) :=
    Run.unharmed_makeDirectories _
  unfold prepareDestination
  split
  · exact ⟨rfl, rfl⟩
  · dsimp only
    rw [Run.exec_bind_of_ok (Run.exec_get w)]
    split
    · next hclears =>
      rw [Run.exec_bind_of_ok (Run.exec_note _ _ w)]
      have hremoved := w.files.unharmed_removeDirectory (h hclears)
      refine Run.exec_bind_leaves (fun d after hexec => ?_) fun _ after hexec => hmake after ?_
      all_goals
        obtain ⟨-, rfl⟩ := Prod.mk.inj hexec
        exact hremoved
    · exact hmake w ⟨rfl, rfl⟩

theorem unharmed_prepare {w : World} (hw : w.files = tree)
    (h : p.clears tree = true →
      ∀ rest, rest ≠ [] → location ≠ tree.place p.settings.destination ++ rest) (s : Survey) :
    World.Unharmed tree location ((p.prepare s).exec w).2 := by
  have hready := unharmed_prepareDestination hw h
  refine Run.exec_bind_leaves (fun d after hexec => ?_) fun _ after hexec => ?_
  all_goals
    rw [hexec] at hready
    exact hready

theorem unharmed_deliver {s : Survey}
    (hread : s.texts.map Prod.fst = p.withHandling .process s.found)
    (h : ∀ file ∈ s.found, p.Misses tree location file) :
    Run.Preserves (World.Unharmed tree location) (p.deliver s) := by
  have hprocess : Run.Preserves (World.Unharmed tree location) (p.processAll s.excluded s.texts) :=
    unharmed_processAll s.excluded fun scanned hscanned =>
      h scanned.1 (List.mem_of_mem_filter (hread ▸ List.mem_map_of_mem hscanned))
  have hcopy : Run.Preserves (World.Unharmed tree location)
      (p.copyAll (p.withHandling .copy s.found)) :=
    unharmed_copyAll fun file hfile => h file (List.mem_of_mem_filter hfile)
  exact .bind hprocess fun _ => .bind hcopy fun _ _ hw => hw

/-! ## Runs -/

/-- The run does not come near a file that it found: it does not clear its place, and no output goes
there. -/
structure Spared (p : Preprocessor) (tree : FileTree) (found : List SourceFile)
    (file : SourceFile) : Prop where
  cleared : p.clears tree = true →
    ∀ rest, rest ≠ [] → tree.place file.path ≠ tree.place p.settings.destination ++ rest
  overwritten : ∀ other ∈ found, p.Misses tree (tree.place file.path) other

/-- A file that is found stands at the place of its path. -/
theorem node?_of_found {tree : FileTree} (hwell : tree.WellFormed) {found : List SourceFile}
    (hcollect : p.collect tree = .ok found) {file : SourceFile} (hfile : file ∈ found) :
    ∃ content, tree.node? (tree.place file.path) = some (.file content) := by
  obtain ⟨source, names, hfound⟩ := collect_eq_ok hcollect hfile
  obtain ⟨content, hentry⟩ := hfound.entry
  rw [hfound.place_path hwell.names]
  exact ⟨content, (hwell.mem_entries_iff.1 hentry).2⟩

/-- A run that spares a file harms it neither when it succeeds nor when it fails. -/
theorem unharmed_run {w : World} {found : List SourceFile}
    (hcollect : p.collect w.files = .ok found) {file : SourceFile}
    (h : p.Spared w.files found file) :
    World.Unharmed w.files (w.files.place file.path) (p.run.exec w).2 := by
  rw [run_eq]
  refine Run.exec_bind_leaves (fun d after hsurvey => ?_) fun s surveyed hsurvey => ?_
  · have hkept : after.files = w.files := congrArg Prod.fst (p.keeps_survey.eq hsurvey)
    exact ⟨congrArg FileTree.workingDirectory hkept, congrArg (FileTree.file? · _) hkept⟩
  · have hsurveyed := survey_eq_ok hsurvey
    obtain rfl := Except.ok.inj (hsurveyed.collected.symm.trans hcollect)
    have hmisses : ∀ other ∈ s.found, p.Misses w.files (w.files.place file.path) other :=
      h.overwritten
    have hprepare := unharmed_prepare hsurveyed.files h.cleared s
    refine Run.exec_bind_leaves (fun d after hexec => ?_) fun _ prepared hexec => ?_
    · rwa [hexec] at hprepare
    · rw [hexec] at hprepare
      exact unharmed_deliver hsurveyed.read h.overwritten prepared hprepare

/-- When no source is at or below the destination, a run spares every file that it finds, if it can
tell the destination: the path can be followed, or it leads to where nothing is. -/
theorem spared_of_apart {tree : FileTree} (hwell : tree.WellFormed) {found : List SourceFile}
    (hcollect : p.collect tree = .ok found) (hapart : p.Apart tree)
    (htold : tree.exists? p.settings.destination = true ∨
      tree.node? (tree.place p.settings.destination) = none) {file : SourceFile}
    (hfile : file ∈ found) : p.Spared tree found file := by
  have hbelow : ∀ rest, rest ≠ [] →
      tree.place file.path ≠ tree.place p.settings.destination ++ rest := by
    obtain hexists | hnone := htold
    · exact hapart.ne_below hwell.names hcollect hfile (.inl hexists)
    · intro rest hrest heq
      obtain ⟨content, hnode⟩ := node?_of_found hwell hcollect hfile
      rw [heq] at hnode
      rw [hwell.node?_of_below hrest hnode] at hnone
      nomatch hnone
  refine ⟨fun _ => hbelow, fun other hother hname heq => ?_⟩
  obtain ⟨source, names, hfound⟩ := collect_eq_ok hcollect hother
  obtain ⟨hne, htarget⟩ := hfound.place_target hwell.names hname
  exact hbelow _ hne (heq.symm.trans htarget)

/-- **A run keeps its sources.** Let the run find some files. Whether it succeeds or fails, such a
file still stands where it did and holds what it held, when the run spares it: when it is not below
a destination that is cleared and no output goes to its place. When no source directory is at or
below the destination, and the path of the destination can be followed or leads to where nothing is,
the run spares every file that it finds. -/
theorem run_keeps_inputs (p : Preprocessor) (w : World) (found : List SourceFile)
    (hwell : w.files.WellFormed) (hcollect : p.collect w.files = .ok found) :
    (∀ file ∈ found, p.Spared w.files found file →
      ∃ content, w.files.file? (w.files.place file.path) = some content ∧
        (p.run.exec w).2.files.file? (w.files.place file.path) = some content) ∧
    (p.Apart w.files →
      w.files.exists? p.settings.destination = true ∨
        w.files.node? (w.files.place p.settings.destination) = none →
      ∀ file ∈ found, p.Spared w.files found file) := by
  refine ⟨fun file hfile hspared => ?_, fun hapart htold file hfile =>
    spared_of_apart hwell hcollect hapart htold hfile⟩
  obtain ⟨content, hnode⟩ := node?_of_found hwell hcollect hfile
  have hcontent : w.files.file? (w.files.place file.path) = some content := by
    rw [FileTree.file?, hnode]
    rfl
  exact ⟨content, hcontent, (unharmed_run hcollect hspared).2.trans hcontent⟩

/-- The two files of the small tree outlive a run that clears the destination. -/
theorem clearingRun_keeps_inputs : ∃ found,
    (clearingRun "out".toList).collect smallTree = .ok found ∧ found.length = 2 ∧
    ∀ file ∈ found, ∃ content, smallTree.file? (smallTree.place file.path) = some content ∧
      ((clearingRun "out".toList).run.exec smallWorld).2.files.file? (smallTree.place file.path) =
        some content := by
  have hcollect : ((clearingRun "out".toList).collect smallTree).toOption.map List.length =
      some 2 := by decide +kernel
  obtain ⟨found, hfound, hlength⟩ := Option.map_eq_some_iff.1 hcollect
  have hwell : smallWorld.files.WellFormed := by decide +kernel
  have hapart : (clearingRun "out".toList).Apart smallTree := by decide +kernel
  have htold : smallTree.exists? ⟨"out".toList⟩ = true := by decide +kernel
  obtain ⟨hkeeps, hspared⟩ := run_keeps_inputs (clearingRun "out".toList) smallWorld found hwell
    (eq_ok_of_toOption hfound)
  exact ⟨found, eq_ok_of_toOption hfound, hlength, fun file hfile =>
    hkeeps file hfile (hspared hapart (.inl htold) file hfile)⟩

end Preprocessor

/-- A directory of outputs, in which an output stands at the place of one of the inputs. -/
def nestedWorld : World where
  globals := .empty
  files :=
    { entries := [(["out".toList], .directory), (["out".toList, ['a']], .directory),
        (["out".toList, ['a'], ['a']], .directory),
        (["out".toList, ['a'], ['a'], "x.txt".toList], .file (.text ['2', '\n'])),
        (["out".toList, ['a'], "x.txt".toList], .file (.text ['1', '\n']))]
      workingDirectory := [] }
  actions := []
  log := []

/-- A run from a directory below the destination finds both files there. The output of one of them
goes to the place of the other one and takes its content away. -/
theorem run_overwrites :
    let p := runFrom "out/a".toList false
    let after := p.run.exec nestedWorld
    nestedWorld.files.WellFormed ∧
    (p.collect nestedWorld.files).toOption.map (·.map fun file =>
        nestedWorld.files.place file.path) =
      some [["out".toList, ['a'], ['a'], "x.txt".toList], ["out".toList, ['a'], "x.txt".toList]] ∧
    after.1.toOption = some ⟨2, 0, 0⟩ ∧
    nestedWorld.files.file? ["out".toList, ['a'], "x.txt".toList] = some (.text ['1', '\n']) ∧
    after.2.files.file? ["out".toList, ['a'], "x.txt".toList] = some (.text ['2', '\n']) := by
  decide +kernel

end SourcePreprocessor
