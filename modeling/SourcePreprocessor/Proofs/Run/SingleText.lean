import SourcePreprocessor.Proofs.File.OneFile
import SourcePreprocessor.Proofs.Run.Delivery
import SourcePreprocessor.Proofs.Run.Exclusions

/-!
# A text on its own and a run over one file

A text can be preprocessed on its own (`preprocessText`), and a file with that text can be the only
file of a run (`runOver`). The two are put together from the same passes, but not in the same way:
the run reads and writes files, knows the text by another path, and evaluates every condition under
which the file is left out, where the text on its own stops at the first that holds.

The paths make no difference to a text that asks neither for its path nor for its folder, and the
files around it make none to a text that includes nothing. The conditions do:

> `preprocessText_agrees`: the two agree in what they give and in how they fail, unless the first
> condition that fails comes after one that holds. Then the run fails, and the text on its own gives
> nothing and does not fail;
> `hastyText_disagrees`: such a text.
-/

namespace SourcePreprocessor

open FileTree (inputName outputName)

/-! ## The run -/

namespace Preprocessor

/-- A run with the settings that it has by default, and without an extension. -/
def plain : Preprocessor := ⟨{}, none⟩

/-- The file as a run finds it. -/
def inputFile : SourceFile := ⟨.ofString "./input.txt", .ofString "input.txt"⟩

/-- What the survey of the one file says. -/
def oneFile (t : Text) (exclusions : List Exclusion) (left : List Path) : Survey :=
  ⟨[inputFile], [(inputFile, t)], exclusions, left⟩

theorem withHandling_exclude : plain.withHandling .exclude [inputFile] = [] := by decide +kernel

theorem withHandling_process : plain.withHandling .process [inputFile] = [inputFile] := by
  decide +kernel

theorem withHandling_copy : plain.withHandling .copy [inputFile] = [] := by decide +kernel

theorem exec_scan (p : Preprocessor) (file : Path) (t : Text) (w : World) :
    (p.scan file t).exec w =
      ((scanFile p.settings.marker file t w.globals).1.map fun _ =>
        (scanFile p.settings.marker file t w.globals).2.exclusions,
        { w with
          globals := (scanFile p.settings.marker file t w.globals).2.globals
          log := w.log ++ (scanFile p.settings.marker file t w.globals).2.log }) := rfl

section Run

variable {files : FileTree} {t : Text}

theorem collect_eq (h : files.HoldsOnly inputName (.text t)) :
    plain.collect files = .ok [inputFile] := by
  have hdestination : files.locate? (.ofString "preprocessed") = none := by
    unfold FileTree.locate?
    rw [h.resolve_output]
    rfl
  have hfiles : files.filesBelow files.workingDirectory none = [[inputName]] := by
    rw [files.filesBelow_workingDirectory h.unique, h.listing]
    rfl
  show collectFrom files (files.locate? (.ofString "preprocessed")) [.ofString "."] = _
  rw [hdestination, collectFrom, filesOf, FileTree.resolve_current h.directory]
  dsimp only
  rw [hfiles]
  rfl

/-- The run begins by scanning the file. -/
theorem exec_survey (h : files.HoldsOnly inputName (.text t)) {s : Scan}
    {result : Except Diagnostic Unit}
    (hscan : scanFile plain.settings.marker inputFile.path t .empty = (result, s)) :
    ∃ log, plain.survey.exec ⟨.empty, files, [], []⟩ =
      (Run.ofExcept result >>= fun _ => excludedFiles s.exclusions [] >>= fun left =>
        pure (oneFile t s.exclusions left)).exec
          ⟨s.globals, files, [], log⟩ := by
  let w : World := ⟨.empty, files, [], []⟩
  have hload : (loadConfiguration plain.settings.configurationFiles).exec w = (.ok (), w) := rfl
  have hcollect : (Run.ofExcept (plain.collect files)).exec w = (.ok [inputFile], w) := by
    rw [collect_eq h]
    rfl
  have hskip : (noteSkipped []).exec w = (.ok (), w) := rfl
  let noted : World :=
    { w with log := [⟨.information, "Global pass over " ++ toString [inputFile].length ++ " files"⟩] }
  have hnote : (Run.note .information
      ("Global pass over " ++ toString [inputFile].length ++ " files")).exec w = (.ok (), noted) := rfl
  have hread : (Run.readText inputFile.path).exec noted = (.ok t, noted) := by
    show ((files.readText (.ofString "./input.txt")).mapError _, _) = _
    rw [h.readText_input]
    rfl
  have hscanned : (plain.scan inputFile.path t).exec noted =
      (result.map fun _ => s.exclusions, ⟨s.globals, files, [], noted.log ++ s.log⟩) := by
    rw [exec_scan]
    show ((scanFile plain.settings.marker inputFile.path t .empty).1.map fun _ => _, _) = _
    rw [hscan]
  unfold survey
  rw [Run.exec_bind_of_ok hload, Run.exec_bind_of_ok (Run.exec_get w), Run.exec_bind_of_ok hcollect,
    withHandling_exclude, withHandling_process, Run.exec_bind_of_ok hskip,
    Run.exec_bind_of_ok hnote, scanAll]
  refine ⟨noted.log ++ s.log, ?_⟩
  simp only [bind_assoc, scanAll, pure_bind, List.append_nil]
  rw [Run.exec_bind_of_ok hread]
  cases result with
  | error d => rw [Run.exec_bind_of_error hscanned]; rfl
  | ok _ => rw [Run.exec_bind_of_ok hscanned]; rfl

/-- The destination is made ready beside the file. -/
theorem exec_prepare (h : files.HoldsOnly inputName (.text t)) (survey : Survey) (globals : Table)
    (log : List LogRecord) :
    ∃ noted, (plain.prepare survey).exec ⟨globals, files, [], log⟩ =
      (.ok (), ⟨globals, files.insert (files.workingDirectory ++ [outputName]) .directory, [],
        noted⟩) := by
  let w : World := ⟨globals, files, [], log⟩
  have hdestination : plain.prepareDestination.exec w =
      (.ok (), ⟨globals, files.insert (files.workingDirectory ++ [outputName]) .directory, [],
        log⟩) := by
    unfold prepareDestination
    rw [if_neg (by decide)]
    dsimp only
    rw [Run.exec_bind_of_ok (Run.exec_get w), if_neg (by simp [plain])]
    exact Run.exec_changeFiles_of_ok h.makeDirectories_output
  unfold prepare
  rw [Run.exec_bind_of_ok hdestination]
  exact ⟨_, rfl⟩

/-- An output is written into the destination. -/
theorem exec_writeOutput {w : World} (h : w.files.Ready) (output : Text) :
    ∃ log, (plain.writeOutput inputFile output).exec w =
      (.ok (), { w with
        files := w.files.insert (w.files.workingDirectory ++ [outputName] ++ [inputName])
          (.file (.text output))
        log }) := by
  have htarget : plain.settings.destination.join inputFile.relative =
      .ofString "preprocessed/input.txt" := by decide
  have hparent : (Path.ofString "preprocessed/input.txt").parent? =
      some (.ofString "preprocessed") := by decide
  have hpath : (plain.outputPath inputFile).exec w =
      (.ok (.ofString "preprocessed/input.txt"), w) := by
    unfold outputPath
    rw [htarget]
    dsimp only
    rw [hparent]
    dsimp only
    rw [Run.exec_bind_of_ok (Run.exec_changeFiles_of_ok h.makeDirectories_output)]
    rfl
  unfold writeOutput
  rw [if_neg (by decide), Run.exec_bind_of_ok hpath, Run.exec_bind_of_ok (Run.exec_note _ _ w)]
  refine ⟨_, Run.exec_changeFiles_of_ok ?_⟩
  dsimp only
  rw [h.write_output]
  rfl

/-- After the line pass there is nothing left to do. -/
theorem exec_deliver {left : List Path} {w after : World} {processed : Nat}
    (hprocess : (plain.processAll left [(inputFile, t)]).exec w = (.ok processed, after))
    (es : List Exclusion) :
    ∃ log, (plain.deliver (oneFile t es left)).exec w =
      (.ok ⟨processed, 1 - processed, 0⟩, { after with log }) := by
  have hcopy : (plain.copyAll []).exec after = (.ok (), after) := rfl
  have hsummary : plain.summary (oneFile t es left) processed = ⟨processed, 1 - processed, 0⟩ := by
    unfold summary oneFile
    dsimp only
    rw [withHandling_exclude, withHandling_process, withHandling_copy]
    simp
  have hfound : (oneFile t es left).found = [inputFile] := rfl
  have htexts : (oneFile t es left).texts = [(inputFile, t)] := rfl
  have hexcluded : (oneFile t es left).excluded = left := rfl
  unfold deliver
  rw [htexts, hexcluded, Run.exec_bind_of_ok hprocess]
  dsimp only
  rw [hsummary, hfound, withHandling_copy, Run.exec_bind_of_ok hcopy,
    Run.exec_bind_of_ok (Run.exec_note _ _ after)]
  exact ⟨_, rfl⟩

/-- A file that is left out is not processed. -/
theorem processAll_of_excluded {left : List Path} (hleft : left.any inputFile.path.same = true)
    (w : World) : (plain.processAll left [(inputFile, t)]).exec w = (.ok 0, w) := by
  rw [processAll, if_pos hleft]
  rfl

/-- A file that is not left out fails in the line pass or has its output written. -/
theorem processAll_of_included {left : List Path} (hleft : left.any inputFile.path.same ≠ true)
    {w : World} (hready : w.files.Ready) :
    match (plain.processIn w.files w.globals w.actions inputFile.path t).1 with
    | .error d => ∃ after, (plain.processAll left [(inputFile, t)]).exec w = (.error d, after)
    | .ok output => ∃ after, (plain.processAll left [(inputFile, t)]).exec w = (.ok 1, after) ∧
        after.files = w.files.insert (w.files.workingDirectory ++ [outputName] ++ [inputName])
          (.file (.text output)) := by
  rw [processAll, if_neg hleft]
  have hprocess := plain.exec_process inputFile.path t w
  match hresult : plain.processIn w.files w.globals w.actions inputFile.path t with
  | (.error d, m) =>
    rw [hresult] at hprocess
    exact ⟨_, Run.exec_bind_of_error hprocess⟩
  | (.ok output, m) =>
    rw [hresult] at hprocess
    rw [Run.exec_bind_of_ok hprocess]
    obtain ⟨log, hwrite⟩ := exec_writeOutput (w := { w with
      globals := m.globals, actions := m.actions, log := w.log ++ m.log }) hready output
    rw [Run.exec_bind_of_ok hwrite]
    exact ⟨_, rfl, rfl⟩

end Run

end Preprocessor

open Preprocessor (plain inputFile oneFile)

/-- What a run with default settings gives over the files. -/
def runOver (files : FileTree) : Except Diagnostic Summary × World :=
  plain.run.exec ⟨.empty, files, [], []⟩

/-- The path that a text on its own has. -/
def ownPath : Path := .ofString "input.txt"

/-- The global pass over a text on its own. -/
def ownScan (t : Text) : Except Diagnostic Unit × Scan :=
  scanFile plain.settings.marker ownPath t .empty

/-! ## The text on its own -/

section Alone

variable {t : Text} {s : Scan} {result : Except Diagnostic Unit}

theorem preprocessText_eq (t : Text) :
    preprocessText t =
      ((plain.scan ownPath t >>= fun exclusions => get >>= fun w =>
        Run.ofExcept (anyHolds w.globals exclusions) >>= fun holds =>
          if holds then pure [] else plain.process ownPath t).exec ⟨.empty, .empty [], [], []⟩).1 :=
  rfl

theorem exec_ownScan (h : ownScan t = (result, s)) :
    (plain.scan ownPath t).exec ⟨.empty, .empty [], [], []⟩ =
      (result.map fun _ => s.exclusions, ⟨s.globals, .empty [], [], s.log⟩) := by
  show ((ownScan t).1.map fun _ => (ownScan t).2.exclusions,
    World.mk (ownScan t).2.globals (.empty []) [] (ownScan t).2.log) = _
  rw [h]

theorem preprocessText_of_error {d : Diagnostic} (h : ownScan t = (.error d, s)) :
    preprocessText t = .error d := by
  rw [preprocessText_eq, Run.exec_bind_of_error (exec_ownScan h)]

/-- After the global pass the conditions are asked, and then the line pass is made. -/
theorem preprocessText_of_ok (h : ownScan t = (.ok (), s)) :
    preprocessText t = anyHolds s.globals s.exclusions >>= fun holds =>
      if holds then .ok [] else (plain.processIn (.empty []) s.globals [] ownPath t).1 := by
  let w : World := ⟨s.globals, .empty [], [], s.log⟩
  have hasked : (Run.ofExcept (anyHolds w.globals s.exclusions)).exec w =
      (anyHolds s.globals s.exclusions, w) := rfl
  rw [preprocessText_eq, Run.exec_bind_of_ok (exec_ownScan h), Run.exec_bind_of_ok (Run.exec_get w)]
  cases hany : anyHolds s.globals s.exclusions with
  | error d =>
    rw [hany] at hasked
    rw [Run.exec_bind_of_error hasked]
    rfl
  | ok holds =>
    rw [hany] at hasked
    rw [Run.exec_bind_of_ok hasked, ok_bind]
    cases holds with
    | true => rw [if_pos rfl, if_pos rfl]; rfl
    | false =>
      rw [if_neg Bool.false_ne_true, if_neg Bool.false_ne_true, Preprocessor.exec_process]

end Alone

/-! ## The two together -/

/-- What a text gives on its own and what a run over its file gives say the same. -/
inductive Agree : Except Diagnostic Text → Except Diagnostic Summary × World → Prop where
  /-- The file was processed, and the output of the text was written. -/
  | processed {output : Text} {after : World} :
      after.files.readText (.ofString "preprocessed/input.txt") = .ok output →
      Agree (.ok output) (.ok ⟨1, 0, 0⟩, after)
  /-- The file was left out, and the text has no output. -/
  | excluded {after : World} :
      after.files.exists? (.ofString "preprocessed/input.txt") = false →
      Agree (.ok []) (.ok ⟨0, 1, 0⟩, after)
  /-- Both failed for the same cause on the same line, and all else but the path is the same too. -/
  | failed {d : Diagnostic} {after : World} :
      Agree (.error d) (.error (d.movedTo inputFile.path), after)

/-- The text has conditions under which it is left out, and the first of them that fails comes after
one that holds. -/
def StopsShort (t : Text) : Prop :=
  ∃ s, ownScan t = (.ok (), s) ∧ HoldsBeforeFailure s.globals s.exclusions

section Together

variable {files : FileTree} {t : Text} {s : Scan}

/-- A run over the one file whose global pass or conditions fail, fails. -/
theorem runOver_of_error {d : Diagnostic} {after : World}
    (h : plain.survey.exec ⟨.empty, files, [], []⟩ = (.error d, after)) :
    runOver files = (.error d, after) := by
  unfold runOver
  rw [Preprocessor.run_eq, Run.exec_bind_of_error h]

/-- Otherwise it makes the destination and goes on to the line pass. -/
theorem runOver_of_ok (hfiles : files.HoldsOnly inputName (.text t)) {survey : Survey}
    {globals : Table} {log : List LogRecord}
    (h : plain.survey.exec ⟨.empty, files, [], []⟩ = (.ok survey, ⟨globals, files, [], log⟩)) :
    ∃ noted, runOver files = (plain.deliver survey).exec
      ⟨globals, files.insert (files.workingDirectory ++ [outputName]) .directory, [], noted⟩ := by
  obtain ⟨noted, hprepare⟩ := Preprocessor.exec_prepare hfiles survey globals log
  refine ⟨noted, ?_⟩
  unfold runOver
  rw [Preprocessor.run_eq, Run.exec_bind_of_ok h, Run.exec_bind_of_ok hprepare]

/-- The global pass of the run is that of the text on its own, at another path. -/
theorem scanFile_of_ownScan (hseen : SeenAlike ownPath inputFile.path t)
    {result : Except Diagnostic Unit} (hscan : ownScan t = (result, s)) :
    ∃ log, scanFile plain.settings.marker inputFile.path t .empty =
      (result.mapError (·.movedTo inputFile.path), s.movedTo inputFile.path log) := by
  obtain ⟨log, hmoved⟩ := scanFile_moved hseen plain.settings.marker .empty
  have hown : scanFile plain.settings.marker ownPath t .empty = (result, s) := hscan
  rw [hown] at hmoved
  exact ⟨log, hmoved⟩

/-- So the run finds the conditions that the text has on its own. -/
theorem exec_survey_of_ok (hfiles : files.HoldsOnly inputName (.text t))
    (hseen : SeenAlike ownPath inputFile.path t) (hscan : ownScan t = (.ok (), s)) :
    ∃ log, plain.survey.exec ⟨.empty, files, [], []⟩ =
      (Preprocessor.excludedFiles (s.exclusions.map (·.movedTo inputFile.path)) [] >>= fun left =>
        pure (oneFile t (s.exclusions.map (·.movedTo inputFile.path)) left)).exec
          ⟨s.globals, files, [], log⟩ := by
  obtain ⟨_, hmoved⟩ := scanFile_of_ownScan hseen hscan
  obtain ⟨log, hsurvey⟩ := Preprocessor.exec_survey hfiles hmoved
  exact ⟨log, hsurvey.trans (Run.exec_bind_of_ok rfl)⟩

theorem ownScan_standsIn {result : Except Diagnostic Unit} (h : ownScan t = (result, s)) :
    ∀ e ∈ s.exclusions, e.StandsIn ownPath t := by
  have hscan : (ownScan t).2 = s := by rw [h]
  rw [← hscan]
  exact scanFile_standsIn plain.settings.marker ownPath t .empty

/-- A failure of the global pass is a failure of both. -/
theorem agree_of_scan_error (hfiles : files.HoldsOnly inputName (.text t))
    (hseen : SeenAlike ownPath inputFile.path t) {d : Diagnostic}
    (hscan : ownScan t = (.error d, s)) : Agree (preprocessText t) (runOver files) := by
  obtain ⟨_, hmoved⟩ := scanFile_of_ownScan hseen hscan
  obtain ⟨log, hsurvey⟩ := Preprocessor.exec_survey hfiles hmoved
  rw [preprocessText_of_error hscan, runOver_of_error hsurvey]
  exact .failed

/-- A condition that fails stops the run, whatever the conditions before it say. -/
theorem runOver_of_failure (hfiles : files.HoldsOnly inputName (.text t))
    (hseen : SeenAlike ownPath inputFile.path t) (hscan : ownScan t = (.ok (), s))
    {before after : List Exclusion} {e : Exclusion} {d : Diagnostic}
    (hsplit : s.exclusions = before ++ e :: after) (hbefore : Settled s.globals before)
    (he : e.holds s.globals = .error d) :
    ∃ w, runOver files = (.error (d.movedTo inputFile.path), w) := by
  have hstands : ∀ e ∈ s.exclusions, e.StandsIn ownPath t := ownScan_standsIn hscan
  obtain ⟨log, hsurvey⟩ := exec_survey_of_ok hfiles hseen hscan
  have hmoved : (e.movedTo inputFile.path).holds s.globals =
      .error (d.movedTo inputFile.path) := by
    rw [Exclusion.holds_movedTo (hstands e (by simp [hsplit])) hseen, he]
    rfl
  have hbefore' : Settled s.globals (before.map (·.movedTo inputFile.path)) :=
    hbefore.movedTo (fun e he => hstands e (by simp [hsplit, he])) hseen
  have hexcluded : ∃ noted, (Preprocessor.excludedFiles
      (s.exclusions.map (·.movedTo inputFile.path)) []).exec ⟨s.globals, files, [], log⟩ =
        (.error (d.movedTo inputFile.path), ⟨s.globals, files, [], noted⟩) := by
    rw [hsplit, List.map_append, List.map_cons]
    exact excludedFiles_of_failure hbefore' hmoved
  obtain ⟨noted, hexcluded⟩ := hexcluded
  refine ⟨⟨s.globals, files, [], noted⟩, runOver_of_error ?_⟩
  rw [hsurvey]
  exact Run.exec_bind_of_error hexcluded

/-- Where no condition fails the run goes on, and leaves the file out if one of them holds. -/
theorem exec_survey_of_settled (hfiles : files.HoldsOnly inputName (.text t))
    (hseen : SeenAlike ownPath inputFile.path t) (hscan : ownScan t = (.ok (), s))
    (hsettled : Settled s.globals s.exclusions) :
    ∃ es left log, plain.survey.exec ⟨.empty, files, [], []⟩ =
        (.ok (oneFile t es left), ⟨s.globals, files, [], log⟩) ∧
      (left.any inputFile.path.same = true ↔
        ∃ e ∈ s.exclusions, e.holds s.globals = .ok true) := by
  have hstands : ∀ e ∈ s.exclusions, e.StandsIn ownPath t := ownScan_standsIn hscan
  obtain ⟨log, hsurvey⟩ := exec_survey_of_ok hfiles hseen hscan
  obtain ⟨left, noted, hexcluded, hany⟩ :=
    excludedFiles_of_settled (w := ⟨s.globals, files, [], log⟩) (hsettled.movedTo hstands hseen)
  refine ⟨_, left, noted, hsurvey.trans (Run.exec_bind_of_ok hexcluded), ?_⟩
  rw [hany inputFile.path]
  constructor
  · rintro ⟨moved, hmem, -, hholds⟩
    obtain ⟨e, he, rfl⟩ := List.mem_map.1 hmem
    rw [Exclusion.holds_movedTo (hstands e he) hseen] at hholds
    exact ⟨e, he, mapError_eq_ok_iff.1 hholds⟩
  · rintro ⟨e, he, hholds⟩
    refine ⟨e.movedTo inputFile.path, List.mem_map_of_mem he, decide_eq_true rfl, ?_⟩
    rw [Exclusion.holds_movedTo (hstands e he) hseen, hholds]
    rfl

/-- Where the file is not left out, the run writes what the line pass over the text gives, or fails
as it does. -/
theorem agree_deliver
    (hinclude : ∀ content ∈ Text.lines t, (lineKind plain.settings.marker content).isInclude = false)
    (hseen : SeenAlike ownPath inputFile.path t) (hready : files.Ready) {left : List Path}
    (hleft : left.any inputFile.path.same ≠ true) (es : List Exclusion) (globals : Table)
    (log : List LogRecord) :
    Agree (plain.processIn (.empty []) globals [] ownPath t).1
      ((plain.deliver (oneFile t es left)).exec ⟨globals, files, [], log⟩) := by
  have hnone : (Environment.mk plain.settings.marker (.empty []) none).extension = none := rfl
  have hpass : (plain.processIn files globals [] inputFile.path t).1 =
      (plain.processIn (.empty []) globals [] ownPath t).1.mapError (·.movedTo inputFile.path) :=
    processFile_moved hnone hinclude hseen plain.settings files ⟨{}, globals, [], []⟩ []
  have hprocess := Preprocessor.processAll_of_included (t := t)
    (w := ⟨globals, files, [], log⟩) hleft hready
  rw [hpass] at hprocess
  match hown : (plain.processIn (.empty []) globals [] ownPath t).1 with
  | .error d =>
    rw [hown] at hprocess
    obtain ⟨after, hafter⟩ := hprocess
    have hdeliver : (plain.deliver (oneFile t es left)).exec ⟨globals, files, [], log⟩ =
        (.error (d.movedTo inputFile.path), after) := Run.exec_bind_of_error hafter
    rw [hdeliver]
    exact .failed
  | .ok output =>
    rw [hown] at hprocess
    obtain ⟨after, hafter, hwritten⟩ := hprocess
    obtain ⟨log, hdeliver⟩ := Preprocessor.exec_deliver hafter es
    rw [hdeliver]
    refine .processed ?_
    show after.files.readText _ = _
    rw [hwritten]
    exact hready.readText_written output

/-- Where no condition fails, both ways through the conditions come to the same, and so do the two
line passes. -/
theorem agree_of_settled (hfiles : files.HoldsOnly inputName (.text t))
    (hinclude : ∀ content ∈ Text.lines t, (lineKind plain.settings.marker content).isInclude = false)
    (hseen : SeenAlike ownPath inputFile.path t) (hscan : ownScan t = (.ok (), s))
    (hsettled : Settled s.globals s.exclusions) : Agree (preprocessText t) (runOver files) := by
  obtain ⟨es, left, log, hsurvey, hleft⟩ := exec_survey_of_settled hfiles hseen hscan hsettled
  obtain ⟨noted, hrun⟩ := runOver_of_ok hfiles hsurvey
  rw [preprocessText_of_ok hscan, hrun]
  by_cases hsome : ∃ e ∈ s.exclusions, e.holds s.globals = .ok true
  · have hasked := anyHolds_eq_true hsettled hsome []
    rw [List.append_nil] at hasked
    obtain ⟨after, hdeliver⟩ := Preprocessor.exec_deliver
      (Preprocessor.processAll_of_excluded (t := t) (hleft.2 hsome) _) es
    rw [hasked, ok_bind, if_pos rfl, hdeliver]
    exact .excluded hfiles.ready.exists_output
  · have hasked := anyHolds_append hsettled (fun e he hholds => hsome ⟨e, he, hholds⟩) []
    rw [List.append_nil] at hasked
    rw [hasked, anyHolds, ok_bind, if_neg Bool.false_ne_true]
    exact agree_deliver hinclude hseen hfiles.ready (mt hleft.1 hsome) es s.globals noted

end Together

/-- **A text on its own and a run over the one file agree**, exactly unless the first of the text's
conditions that fails comes after one that holds. Then the run fails, and the text on its own has no
output. -/
theorem preprocessText_agrees (files : FileTree) (t : Text)
    (hfiles : files.HoldsOnly inputName (.text t))
    (hinclude : ∀ content ∈ Text.lines t, (lineKind plain.settings.marker content).isInclude = false)
    (hpath : ¬ Text.Mentions "__file__".toList t)
    (hfolder : ¬ Text.Mentions "__filefolder__".toList t) :
    (¬ StopsShort t → Agree (preprocessText t) (runOver files)) ∧
      (StopsShort t → preprocessText t = .ok [] ∧ ∃ d, (runOver files).1 = .error d) := by
  have hseen : SeenAlike ownPath inputFile.path t := ⟨by decide, hpath, hfolder⟩
  match hscan : ownScan t with
  | (.error d, s) =>
    refine ⟨fun _ => agree_of_scan_error hfiles hseen hscan, ?_⟩
    rintro ⟨s', hscan', -⟩
    rw [hscan] at hscan'
    nomatch hscan'
  | (.ok (), s) =>
    have hshort : StopsShort t ↔ HoldsBeforeFailure s.globals s.exclusions := by
      unfold StopsShort
      rw [hscan]
      simp
    rw [hshort]
    rcases settled_or_fails s.globals s.exclusions with
      hsettled | ⟨before, e, after, d, hsplit, hbefore, he⟩
    · exact ⟨fun _ => agree_of_settled hfiles hinclude hseen hscan hsettled,
        fun h => absurd h hsettled.not_holdsBeforeFailure⟩
    · obtain ⟨w, hrun⟩ := runOver_of_failure hfiles hseen hscan hsplit hbefore he
      refine ⟨fun h => ?_, fun h => ⟨?_, d.movedTo inputFile.path, by rw [hrun]⟩⟩
      · -- none of the conditions before the first that fails holds
        have hnone : ∀ b ∈ before, b.holds s.globals ≠ .ok true := fun b hb hholds =>
          h ⟨before, e, after, d, hsplit, hbefore, ⟨b, hb, hholds⟩, he⟩
        have hasked : anyHolds s.globals s.exclusions = .error d := by
          rw [hsplit, anyHolds_append hbefore hnone, anyHolds, he]
          rfl
        rw [preprocessText_of_ok hscan, hasked, hrun]
        exact .failed
      · rw [preprocessText_of_ok hscan, h.anyHolds]
        rfl

/-! ## Two texts -/

/-- The tree with a directory that holds the one file, and works there. -/
def homeTree (t : Text) : FileTree where
  entries := [(["home".toList], .directory), (["home".toList, inputName], .file (.text t))]
  workingDirectory := ["home".toList]

theorem homeTree_holdsOnly (t : Text) : (homeTree t).HoldsOnly inputName (.text t) where
  directory := rfl
  unique := by
    intro node hnode
    simp [homeTree] at hnode
    exact hnode
  listing := rfl

/-- A condition uses a variable that is defined after it. -/
def lateText : Text :=
  "//#excludeif mode == 2\n//#global mode=1\n//#if mode == 1\na /*$mode + 1$*/\n//#endif\n".toList

/-- The condition does not hold, and the file is processed. -/
theorem lateText_agrees :
    ¬ StopsShort lateText ∧ preprocessText lateText = .ok "a 2\n".toList ∧
      Agree (preprocessText lateText) (runOver (homeTree lateText)) := by
  have hascii : lateText.all Text.isAscii = true := by decide +kernel
  have hinclude : ∀ content ∈ Text.lines lateText,
      (lineKind plain.settings.marker content).isInclude = false := by decide +kernel
  have hpath : ¬ Text.Mentions "__file__".toList lateText := fun h =>
    absurd (h.infix_map hascii) (by decide +kernel)
  have hfolder : ¬ Text.Mentions "__filefolder__".toList lateText := fun h =>
    absurd (h.infix_map hascii) (by decide +kernel)
  obtain ⟨hagree, hshort⟩ := preprocessText_agrees (homeTree lateText) lateText
    (homeTree_holdsOnly lateText) hinclude hpath hfolder
  have hown : preprocessText lateText = .ok "a 2\n".toList := by decide +kernel
  have hlong : ¬ StopsShort lateText := by
    intro h
    rw [(hshort h).1] at hown
    nomatch hown
  exact ⟨hlong, hown, hagree hlong⟩

/-- A condition that holds, and after it one that asks for a variable that nobody defines. -/
def hastyText : Text := "//#excludeif true\n//#excludeif nosuch\n".toList

/-- On its own the text has an empty output, while the run over the file fails on its second line. -/
theorem hastyText_disagrees :
    (homeTree hastyText).HoldsOnly inputName (.text hastyText) ∧
    (∀ content ∈ Text.lines hastyText,
      (lineKind plain.settings.marker content).isInclude = false) ∧
    ¬ Text.Mentions "__file__".toList hastyText ∧
    ¬ Text.Mentions "__filefolder__".toList hastyText ∧
    preprocessText hastyText = .ok [] ∧
    (runOver (homeTree hastyText)).1 = .error
      { cause := .evaluation (.unknownVariable "nosuch".toList), file := some inputFile.path,
        line := some 2, fragment := some "nosuch".toList } := by
  have hascii : hastyText.all Text.isAscii = true := by decide +kernel
  refine ⟨homeTree_holdsOnly hastyText, by decide +kernel, fun h => ?_, fun h => ?_, ?_⟩
  · exact absurd (h.infix_map hascii) (by decide +kernel)
  · exact absurd (h.infix_map hascii) (by decide +kernel)
  · decide +kernel

end SourcePreprocessor
