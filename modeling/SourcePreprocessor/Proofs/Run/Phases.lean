import SourcePreprocessor.Proofs.File.Files
import SourcePreprocessor.Proofs.InPlace
import SourcePreprocessor.Proofs.Pass.Trace
import SourcePreprocessor.Run

/-!
# The phases of a run

A run has two halves. In the first one, the survey, it finds out everything that it needs to know:
it loads the configuration, collects the files, reads and scans them and evaluates the conditions
that leave files out. In the second half it prepares the destination and writes.

> `run_eq`: a run is its survey, followed by the preparation and the delivery;
> `keeps_survey`: the survey changes no file, whether it succeeds or not;
> `survey_eq_ok`: what it finds is what the files hold.

Steps of a run are taken apart from the result backwards, as those of `Except` are
(`exec_bind_eq_ok_iff`). What a step leaves alone, it leaves alone also when it fails (`Run.Keeps`).
-/

namespace SourcePreprocessor

/-! ## Steps and the worlds they leave -/

namespace Run

variable {α β γ : Type}

/-- What a step gives, and the world that it leaves. -/
def exec (step : Run α) (w : World) : Except Diagnostic α × World := step.run.run w

theorem exec_get (w : World) : (get : Run World).exec w = (.ok w, w) := rfl

theorem exec_note (level : LogLevel) (text : String) (w : World) :
    (note level text).exec w = (.ok (), { w with log := w.log ++ [⟨level, text⟩] }) := rfl

theorem changeFiles_eq_ok {path : Path} {change : FileTree → FileTree.Outcome} {w w' : World}
    (h : (changeFiles path change).exec w = (.ok (), w')) :
    change w.files = (.ok (), w'.files) ∧ w'.globals = w.globals ∧ w'.actions = w.actions := by
  obtain ⟨hresult, rfl⟩ := Prod.mk.inj h
  exact ⟨Prod.ext (mapError_eq_ok_iff.1 hresult) rfl, rfl, rfl⟩

theorem exec_changeFiles_of_ok {path : Path} {change : FileTree → FileTree.Outcome} {w : World}
    {files : FileTree} (h : change w.files = (.ok (), files)) :
    (changeFiles path change).exec w = (.ok (), { w with files }) := by
  show (((change w.files).1.mapError _), { w with files := (change w.files).2 }) = _
  rw [h]
  rfl

theorem exec_bind (step : Run α) (next : α → Run β) (w : World) :
    (step >>= next).exec w = match step.exec w with
      | (.ok a, w) => (next a).exec w
      | (.error d, w) => (.error d, w) := by
  match hstep : step.exec w with
  | (.ok a, after) => exact InPlace.exec_bind_of_ok hstep
  | (.error d, after) => exact InPlace.exec_bind_of_error hstep

variable {step : Run α} {next : α → Run β} {w w' : World} {a : α} {b : β} {d : Diagnostic}

theorem exec_bind_of_ok (h : step.exec w = (.ok a, w')) :
    (step >>= next).exec w = (next a).exec w' := InPlace.exec_bind_of_ok h

theorem exec_bind_of_error (h : step.exec w = (.error d, w')) :
    (step >>= next).exec w = (.error d, w') := InPlace.exec_bind_of_error h

/-- A chain of steps ends in a value exactly when its first step gives a value and the rest ends
from the world that it leaves. -/
theorem exec_bind_eq_ok_iff :
    (step >>= next).exec w = (.ok b, w') ↔
      ∃ a after, step.exec w = (.ok a, after) ∧ (next a).exec after = (.ok b, w') := by
  rw [exec_bind]
  match hstep : step.exec w with
  | (.error d, after) => exact ⟨nofun, fun ⟨_, _, h, _⟩ => nomatch h⟩
  | (.ok a, after) =>
    refine ⟨fun h => ⟨a, after, rfl, h⟩, ?_⟩
    rintro ⟨_, _, hpair, hnext⟩
    obtain ⟨hok, rfl⟩ := Prod.mk.inj hpair
    obtain rfl := Except.ok.inj hok
    exact hnext

theorem exec_eq_of_toOption (h : (step.exec w).1.toOption = some a) :
    step.exec w = (.ok a, (step.exec w).2) := Prod.ext (eq_ok_of_toOption h) rfl

theorem exec_eq_of_toOption_eq_none (h : (step.exec w).1.toOption = none) :
    ∃ d, step.exec w = (.error d, (step.exec w).2) := by
  match hexec : step.exec w with
  | (.error d, after) => exact ⟨d, rfl⟩
  | (.ok a, after) =>
    rw [hexec] at h
    nomatch h

/-- Whether it succeeds or not, a step leaves alone what this view of the world shows. -/
def Keeps (view : World → γ) (step : Run α) : Prop := ∀ w, view (step.exec w).2 = view w

theorem keeps_pure (view : World → γ) (a : α) : Keeps view (pure a : Run α) := fun _ => rfl

theorem keeps_get (view : World → γ) : Keeps view (get : Run World) := fun _ => rfl

theorem keeps_ofExcept (view : World → γ) (result : Except Diagnostic α) :
    Keeps view (ofExcept result) := fun _ => rfl

theorem keeps_readText (view : World → γ) (path : Path) : Keeps view (readText path) :=
  fun _ => rfl

theorem Keeps.bind {view : World → γ} (hstep : Keeps view step)
    (hnext : ∀ a, Keeps view (next a)) : Keeps view (step >>= next) := by
  intro w
  have hw := hstep w
  rw [exec_bind]
  match hexec : step.exec w with
  | (.error d, after) =>
    rw [hexec] at hw
    exact hw
  | (.ok a, after) =>
    rw [hexec] at hw
    exact (hnext a after).trans hw

theorem Keeps.eq {view : World → γ} {result : Except Diagnostic α} (h : Keeps view step)
    (hexec : step.exec w = (result, w')) : view w' = view w := by
  have hw := h w
  rw [hexec] at hw
  exact hw

end Run

/-! ## Two halves -/

/-- What a run knows before it writes. -/
structure Survey where
  /-- The files below the source directories. -/
  found : List SourceFile
  /-- The files that are processed, with their texts. -/
  texts : List (SourceFile × Text)
  /-- The conditions that leave files out. -/
  exclusions : List Exclusion
  /-- The files that are left out by a condition. -/
  excluded : List Path

namespace Preprocessor

/-- The first half of a run: everything before the destination is prepared. -/
def survey (p : Preprocessor) : Run Survey := do
  loadConfiguration p.settings.configurationFiles
  let found ← Run.ofExcept (p.collect (← get).files)
  noteSkipped (p.withHandling .exclude found)
  Run.note .information
    ("Global pass over " ++ toString (p.withHandling .process found).length ++ " files")
  let (texts, exclusions) ← p.scanAll (p.withHandling .process found)
  let excluded ← excludedFiles exclusions []
  return ⟨found, texts, exclusions, excluded⟩

/-- The destination is made ready and the line pass announced. -/
def prepare (p : Preprocessor) (s : Survey) : Run Unit := do
  p.prepareDestination
  Run.note .information ("Line pass over " ++
    toString ((p.withHandling .process s.found).length - s.excluded.length) ++ " files")

/-- What a run did, when it processed so many files. -/
def summary (p : Preprocessor) (s : Survey) (processed : Nat) : Summary :=
  ⟨processed, (p.withHandling .exclude s.found).length +
    ((p.withHandling .process s.found).length - processed), (p.withHandling .copy s.found).length⟩

/-- The second half of a run, after the destination is ready. -/
def deliver (p : Preprocessor) (s : Survey) : Run Summary := do
  let processed ← p.processAll s.excluded s.texts
  p.copyAll (p.withHandling .copy s.found)
  let done := p.summary s processed
  Run.note .information ("Done: " ++ toString done.processed ++ " processed, " ++
    toString done.copied ++ " copied, " ++ toString done.excluded ++ " excluded")
  return done

theorem run_eq (p : Preprocessor) :
    p.run = p.survey >>= fun s => p.prepare s >>= fun _ => p.deliver s := by
  unfold run survey prepare deliver
  simp only [bind_assoc, pure_bind]
  rfl

/-! ## The survey -/

end Preprocessor

/-- The files, and the actions that the extension received: what the first half of a run leaves
alone. -/
def World.external (w : World) : FileTree × List Action := (w.files, w.actions)

theorem keeps_loadConfiguration (files : List Path) :
    Run.Keeps World.external (loadConfiguration files) := by
  induction files with
  | nil => exact Run.keeps_pure _ ()
  | cons file files ih =>
    unfold loadConfiguration
    exact .bind (fun _ => rfl) fun _ => .bind (Run.keeps_readText _ file) fun _ =>
      .bind (fun _ => rfl) fun _ => ih

namespace Preprocessor

theorem keeps_noteSkipped {γ : Type} (view : World → γ)
    (hview : ∀ w log, view { w with log } = view w) (files : List SourceFile) :
    Run.Keeps view (noteSkipped files) := by
  induction files with
  | nil => exact Run.keeps_pure _ ()
  | cons file files ih =>
    unfold noteSkipped
    exact .bind (fun w => hview w _) fun _ => ih

theorem keeps_scanAll (p : Preprocessor) (files : List SourceFile) :
    Run.Keeps World.external (p.scanAll files) := by
  induction files with
  | nil => exact Run.keeps_pure _ _
  | cons file files ih =>
    unfold scanAll
    exact .bind (Run.keeps_readText _ file.path) fun _ => .bind (fun _ => rfl) fun _ =>
      .bind ih fun _ => Run.keeps_pure _ _

theorem keeps_excludedFiles {γ : Type} (view : World → γ)
    (hview : ∀ w log, view { w with log } = view w) (exclusions : List Exclusion)
    (excluded : List Path) : Run.Keeps view (excludedFiles exclusions excluded) := by
  induction exclusions generalizing excluded with
  | nil => exact Run.keeps_pure _ _
  | cons exclusion exclusions ih =>
    unfold excludedFiles
    refine .bind (Run.keeps_get view) fun w => .bind (Run.keeps_ofExcept view _) fun holds => ?_
    cases holds with
    | false => exact ih excluded
    | true => exact .bind (fun w => hview w _) fun _ => ih _

/-- The survey changes no file, whether it succeeds or not. -/
theorem keeps_survey (p : Preprocessor) : Run.Keeps World.external p.survey := by
  unfold survey
  exact .bind (keeps_loadConfiguration _) fun _ => .bind (Run.keeps_get _) fun _ =>
    .bind (Run.keeps_ofExcept _ _) fun found =>
    .bind (keeps_noteSkipped _ (fun _ _ => rfl) _) fun _ =>
    .bind (fun _ => rfl) fun _ => .bind (p.keeps_scanAll _) fun _ =>
    .bind (keeps_excludedFiles _ (fun _ _ => rfl) _ _) fun _ => Run.keeps_pure _ _

/-- The conditions that leave files out, and the variables at the end, when the global pass goes
through files one after the other. -/
def globalPass (p : Preprocessor) :
    List (SourceFile × Text) → Table → Except Diagnostic (List Exclusion × Table)
  | [], globals => .ok ([], globals)
  | (file, t) :: files, globals =>
    match scanFile p.settings.marker file.path t globals with
    | (.error d, _) => .error d
    | (.ok (), scan) => do
      let (exclusions, after) ← p.globalPass files scan.globals
      return (scan.exclusions ++ exclusions, after)

theorem scan_eq_ok {p : Preprocessor} {file : Path} {t : Text} {w w' : World}
    {exclusions : List Exclusion} (h : (p.scan file t).exec w = (.ok exclusions, w')) :
    ∃ scan, scanFile p.settings.marker file t w.globals = (.ok (), scan) ∧
      exclusions = scan.exclusions ∧ w'.globals = scan.globals ∧ w'.files = w.files := by
  obtain ⟨hresult, rfl⟩ := Prod.mk.inj h
  obtain ⟨_, hok, rfl⟩ := map_eq_ok_iff.1 hresult
  exact ⟨_, Prod.ext hok rfl, rfl, rfl, rfl⟩

/-- Reading and scanning files gives their texts and the conditions in them. -/
theorem scanAll_eq_ok {p : Preprocessor} {files : List SourceFile} :
    ∀ {w w' : World} {texts : List (SourceFile × Text)} {exclusions : List Exclusion},
      (p.scanAll files).exec w = (.ok (texts, exclusions), w') →
        texts.map Prod.fst = files ∧
        (∀ scanned ∈ texts, w.files.readText scanned.1.path = .ok scanned.2) ∧
        p.globalPass texts w.globals = .ok (exclusions, w'.globals) := by
  induction files with
  | nil =>
    intro w w' texts exclusions h
    obtain ⟨hok, rfl⟩ := Prod.mk.inj h
    obtain ⟨rfl, rfl⟩ := Prod.mk.inj (Except.ok.inj hok)
    exact ⟨rfl, nofun, rfl⟩
  | cons file files ih =>
    intro w w' texts exclusions h
    unfold scanAll at h
    obtain ⟨t, after, hread, h⟩ := Run.exec_bind_eq_ok_iff.1 h
    obtain ⟨own, scanned, hscan, h⟩ := Run.exec_bind_eq_ok_iff.1 h
    obtain ⟨⟨rest, others⟩, last, hrest, h⟩ := Run.exec_bind_eq_ok_iff.1 h
    obtain ⟨hok, rfl⟩ := Prod.mk.inj h
    obtain ⟨rfl, rfl⟩ := Prod.mk.inj (Except.ok.inj hok)
    obtain ⟨htext, rfl⟩ := Prod.mk.inj hread
    obtain ⟨scan, hfirst, rfl, hglobals, hkept⟩ := scan_eq_ok hscan
    obtain ⟨hfiles, htexts, hpass⟩ := ih hrest
    rw [hglobals] at hpass
    refine ⟨congrArg (file :: ·) hfiles, fun found hfound => ?_, ?_⟩
    · obtain rfl | hfound := List.mem_cons.1 hfound
      · exact mapError_eq_ok_iff.1 htext
      · rw [← hkept]
        exact htexts found hfound
    · rw [globalPass, hfirst]
      dsimp only
      rw [hpass]
      rfl

/-- A path that stands in the list already need not be added again. -/
theorem any_same_add (excluded : List Path) (file path : Path) :
    (if excluded.any file.same then excluded else excluded ++ [file]).any path.same = true ↔
      excluded.any path.same = true ∨ path.same file = true := by
  by_cases h : excluded.any file.same = true
  · rw [if_pos h]
    refine ⟨.inl, ?_⟩
    rintro (hpath | hpath)
    · exact hpath
    · obtain ⟨other, hother, hsame⟩ := List.any_eq_true.1 h
      refine List.any_eq_true.2 ⟨other, hother, ?_⟩
      exact decide_eq_true ((of_decide_eq_true hpath).trans (of_decide_eq_true hsame))
  · rw [if_neg h]
    simp

/-- A file is left out exactly when one of the conditions that stand in it holds. -/
theorem excludedFiles_eq_ok {exclusions : List Exclusion} :
    ∀ {excluded left : List Path} {w w' : World},
      (excludedFiles exclusions excluded).exec w = (.ok left, w') → ∀ path : Path,
        (left.any path.same = true ↔ excluded.any path.same = true ∨ ∃ exclusion ∈ exclusions,
          path.same exclusion.position.file = true ∧ exclusion.holds w.globals = .ok true) := by
  induction exclusions with
  | nil =>
    intro excluded left w w' h path
    obtain ⟨hok, -⟩ := Prod.mk.inj h
    obtain rfl := Except.ok.inj hok
    simp
  | cons exclusion exclusions ih =>
    intro excluded left w w' h path
    unfold excludedFiles at h
    rw [Run.exec_bind_of_ok (Run.exec_get w)] at h
    obtain ⟨holds, after, hcondition, h⟩ := Run.exec_bind_eq_ok_iff.1 h
    obtain ⟨hholds, rfl⟩ := Prod.mk.inj hcondition
    cases holds with
    | false =>
      rw [ih h path]
      simp [hholds]
    | true =>
      rw [if_pos rfl, Run.exec_bind_of_ok (Run.exec_note _ _ w)] at h
      rw [ih h path, any_same_add]
      simp [hholds, or_assoc]

/-- What a survey says about the files that it was made of. -/
structure Surveyed (p : Preprocessor) (w : World) (s : Survey) (after : World) : Prop where
  files : after.files = w.files
  actions : after.actions = w.actions
  collected : p.collect w.files = .ok s.found
  /-- The files that are processed are read, in the order in which they were found. -/
  read : s.texts.map Prod.fst = p.withHandling .process s.found
  texts : ∀ scanned ∈ s.texts, w.files.readText scanned.1.path = .ok scanned.2
  /-- The conditions are those that the global pass finds in these texts, once the configuration is
  loaded. -/
  exclusions : ∃ loaded,
    (loadConfiguration p.settings.configurationFiles).exec w = (.ok (), loaded) ∧
    p.globalPass s.texts loaded.globals = .ok (s.exclusions, after.globals)
  /-- They see the variables that the last of the files leaves. -/
  excluded : ∀ path : Path, s.excluded.any path.same = true ↔ ∃ exclusion ∈ s.exclusions,
    path.same exclusion.position.file = true ∧ exclusion.holds after.globals = .ok true

theorem survey_eq_ok {p : Preprocessor} {w after : World} {s : Survey}
    (h : p.survey.exec w = (.ok s, after)) : p.Surveyed w s after := by
  have hsurvey := p.keeps_survey.eq h
  unfold survey at h
  obtain ⟨_, loaded, hload, h⟩ := Run.exec_bind_eq_ok_iff.1 h
  rw [Run.exec_bind_of_ok (Run.exec_get loaded)] at h
  obtain ⟨found, _, hcollect, h⟩ := Run.exec_bind_eq_ok_iff.1 h
  obtain ⟨hfound, rfl⟩ := Prod.mk.inj hcollect
  obtain ⟨_, noted, hnoted, h⟩ := Run.exec_bind_eq_ok_iff.1 h
  rw [Run.exec_bind_of_ok (Run.exec_note _ _ noted)] at h
  obtain ⟨⟨texts, exclusions⟩, scanned, hscan, h⟩ := Run.exec_bind_eq_ok_iff.1 h
  obtain ⟨excluded, last, hexcluded, h⟩ := Run.exec_bind_eq_ok_iff.1 h
  obtain ⟨hok, rfl⟩ := Prod.mk.inj h
  obtain rfl := Except.ok.inj hok
  -- all of this happens in the files of the first world
  have hloaded : loaded.files = w.files :=
    congrArg Prod.fst ((keeps_loadConfiguration _).eq hload)
  have hnotedFiles : noted.files = w.files :=
    ((keeps_noteSkipped World.files (fun _ _ => rfl) _).eq hnoted).trans hloaded
  have hnotedGlobals : noted.globals = loaded.globals :=
    (keeps_noteSkipped World.globals (fun _ _ => rfl) _).eq hnoted
  have hglobals : last.globals = scanned.globals :=
    (keeps_excludedFiles World.globals (fun _ _ => rfl) _ _).eq hexcluded
  obtain ⟨hread, htexts, hpass⟩ := scanAll_eq_ok hscan
  refine ⟨congrArg Prod.fst hsurvey, congrArg Prod.snd hsurvey, hloaded ▸ hfound, hread, ?_,
    ⟨loaded, hload, ?_⟩, ?_⟩
  · intro file hfile
    rw [← hnotedFiles]
    exact htexts file hfile
  · rw [hglobals, ← hnotedGlobals]
    exact hpass
  · intro path
    rw [hglobals, excludedFiles_eq_ok hexcluded path]
    simp

end Preprocessor

end SourcePreprocessor
