import SourcePreprocessor.Proofs.Run.Redelivery

/-!
# Running again

Running again should change nothing. The second run starts from the files that the first one left,
and everything that it reads has to be as it was:

> `run_again`: a run that succeeds can be repeated in the files that it leaves, with the same
> summary and the same variables at the end, and leaves them as they are. For this the sources, the
> configuration and the included files have to be apart from the destination; the run has to
> recognise the destination the first time already (`Recognises`); and where it clears it, the paths
> of its inputs must not lead through it.
>
> `second_run_leaves_out`: a destination whose path can be followed only after the first run is not
> recognised: the first run processes a file that the second one leaves out.
-/

namespace SourcePreprocessor

namespace Preprocessor

variable {p : Preprocessor}

/-! ## What the second run finds -/

theorem named_of_found {tree : FileTree} (hwell : tree.WellFormed) {found : List SourceFile}
    (hcollect : p.collect tree = .ok found) {file : SourceFile} (hfile : file ∈ found) :
    file.Named := by
  obtain ⟨source, names, hfound⟩ := collect_eq_ok hcollect hfile
  exact ⟨names, hfound.isEntryName hwell.names, by rw [hfound.eq]⟩

/-- A run recognises the destination from the start. The walks can tell it: its path leads to
something, or nothing stands at its place, or its place is not below a source. And if it is to be
cleared, it is cleared now, or nothing stands there and its path does not end in a dot. -/
structure Recognises (p : Preprocessor) (tree : FileTree) : Prop where
  walks : tree.exists? p.settings.destination = true ∨
    tree.node? (tree.place p.settings.destination) = none ∨
    ∀ source ∈ p.settings.sources, Location.isAtOrBelow (tree.place source)
      (tree.place p.settings.destination) = false
  clears : p.ClearsAlike tree

/-- The inputs can still be reached when what is below a destination that is cleared is gone. -/
def KeepsReach (p : Preprocessor) (tree : FileTree) : Prop :=
  p.clears tree = true → ∀ path ∈ p.settings.sources ++ p.settings.configurationFiles,
    (tree.emptied (tree.place p.settings.destination)).exists? path = true

/-- No file that the run includes stands at or below the destination. -/
def IncludesApart (p : Preprocessor) (w : World) : Prop :=
  ∀ s surveyed prepared, p.survey.exec w = (.ok s, surveyed) →
    (p.prepare s).exec surveyed = (.ok (), prepared) →
    ∀ done file t rest n mid, s.texts = done ++ (file, t) :: rest →
      (p.processAll s.excluded done).exec prepared = (.ok n, mid) →
      s.excluded.any file.path.same = false →
      p.IncludesOutside (w.files.place p.settings.destination) mid file.path t

section Kept

variable {tree : FileTree}

/-- An input that could be reached still can. -/
theorem exists?_kept (hreach : p.KeepsReach tree) {path : Path}
    (hpath : path ∈ p.settings.sources ++ p.settings.configurationFiles)
    (h : tree.exists? path = true) : (p.kept tree).exists? path = true := by
  unfold kept
  split
  · next hclears => exact hreach hclears path hpath
  · exact h

/-- So can a file that was found: what leads to it from the source is not below the destination. -/
theorem exists?_kept_of_found (hwell : tree.WellFormed) (hapart : p.Apart tree)
    (htells : p.Tells tree) (hreach : p.KeepsReach tree) {found : List SourceFile}
    (hcollect : p.collect tree = .ok found) {file : SourceFile} (hfile : file ∈ found)
    (h : tree.exists? file.path = true) : (p.kept tree).exists? file.path = true := by
  unfold kept
  split
  · next hclears =>
    obtain ⟨source, names, hfound⟩ := collect_eq_ok hcollect hfile
    have houtside := outside_of_found hwell hapart htells hcollect hfile
    have hsource := hreach hclears source (List.mem_append_left _ hfound.isSource)
    have hpassed := FileTree.node?_of_resolve (FileTree.exists?_iff.1 hsource)
    have hway : ∀ location ∈ tree.way file.path,
        Location.isBelow (tree.place p.settings.destination) location = false := by
      intro location hlocation
      rw [hfound.eq] at hlocation
      obtain hlocation | ⟨taken, ⟨rest, rfl⟩, rfl⟩ :=
        FileTree.mem_way_child tree source (hfound.isEntryName hwell.names) hlocation
      · obtain rfl | hnode := hpassed location hlocation
        · exact Location.isBelow_eq_false_of_outside (hapart source hfound.isSource)
        · rw [FileTree.node?_emptied] at hnode
          split at hnode
          · nomatch hnode
          · next hbelow => exact Bool.eq_false_iff.2 hbelow
      · rw [Bool.eq_false_iff]
        intro hbelow
        obtain ⟨more, -, hmore⟩ := Location.isBelow_iff.1 hbelow
        rw [hfound.place_path hwell.names, ← List.append_assoc, hmore, List.append_assoc,
          Location.isAtOrBelow_append] at houtside
        nomatch houtside
    have hsame : (tree.emptied (tree.place p.settings.destination)).resolve file.path =
        tree.resolve file.path := by
      refine FileTree.resolve_congr rfl fun location hlocation => ?_
      rw [FileTree.node?_emptied, hway location hlocation, if_neg Bool.false_ne_true]
    rw [FileTree.exists?_iff] at h ⊢
    exact hsame.trans h
  · exact h

end Kept

/-! ## The files after a run -/

/-- The walks of a run that succeeds could tell the destination. -/
theorem Recognises.tells {tree ready : FileTree} (h : p.Recognises tree)
    (hready : p.Readied tree ready) (hprepared : p.Prepared tree ready) : p.Tells tree := by
  refine h.walks.imp_left fun hexists => ⟨hexists, ?_⟩
  have hdirectory := hready.directory.resolve_right (text_ne_nil_of_exists? hexists)
  have hnode := (FileTree.resolve_of_isDirectory hdirectory).2
  rw [FileTree.place_eq hprepared.workingDirectory] at hnode
  by_cases hclears : p.clears tree = true
  · exact hprepared.directory hclears
  · have hfile := hprepared.file? (tree.place p.settings.destination)
    rw [Bool.eq_false_iff.2 hclears, Bool.false_and, if_neg Bool.false_ne_true] at hfile
    rw [← hfile, FileTree.file?, hnode]
    rfl

/-- What a run has made of the files: it has made the destination ready and delivered below it. -/
structure Leaves (p : Preprocessor) (tree ready last : FileTree) : Prop where
  readied : p.Readied tree ready
  prepared : p.Prepared tree ready
  grown : FileTree.Grown (tree.place p.settings.destination) ready last
  wellFormed : last.WellFormed

namespace Leaves

variable {tree ready last : FileTree} (h : p.Leaves tree ready last)

include h

theorem place_eq (path : Path) : last.place path = tree.place path :=
  FileTree.place_eq (h.grown.within.workingDirectory.trans h.prepared.workingDirectory) path

/-- Outside the destination the files are as before. -/
theorem file?_outside {location : Location}
    (houtside : Location.isAtOrBelow (tree.place p.settings.destination) location = false) :
    last.file? location = tree.file? location := by
  unfold FileTree.file?
  rw [h.grown.outside location (Location.isBelow_eq_false_of_outside houtside)]
  have hfile := h.prepared.file? location
  rw [houtside, Bool.and_false, if_neg Bool.false_ne_true] at hfile
  exact hfile

/-- What was kept can still be reached. -/
theorem exists? {path : Path} (hkept : (p.kept tree).exists? path = true) :
    last.exists? path = true := (h.readied.within.trans h.grown.within).exists? hkept

/-- A text outside the destination is read again. -/
theorem readText {path : Path} {t : Text} (hkept : (p.kept tree).exists? path = true)
    (hplace : Location.isAtOrBelow (tree.place p.settings.destination) (tree.place path) = false)
    (hread : tree.readText path = .ok t) : last.readText path = .ok t := by
  rw [FileTree.readText_eq_ok_iff, FileTree.read_eq_ok_iff] at hread ⊢
  refine ⟨FileTree.exists?_iff.1 (h.exists? hkept), ?_⟩
  rw [h.place_eq, h.file?_outside hplace]
  exact hread.2

/-- They can tell it after the run. -/
theorem tells_after (hrecognises : p.Recognises tree) : p.Tells last := by
  obtain hdirectory | hempty := h.readied.directory
  · obtain ⟨hresolve, hnode⟩ :=
      FileTree.resolve_of_isDirectory (h.grown.within.isDirectory hdirectory)
    refine .inl ⟨FileTree.exists?_iff.2 hresolve, ?_⟩
    rw [FileTree.file?, hnode]
    rfl
  · obtain hexists | hnone | hout := hrecognises.walks
    · exact absurd hempty (text_ne_nil_of_exists? hexists)
    · refine .inr (.inl ?_)
      rw [h.place_eq, h.grown.outside _ (Location.isBelow_self _), h.readied.unchanged hempty,
        hnone]
    · refine .inr (.inr fun source hsource => ?_)
      rw [h.place_eq, h.place_eq]
      exact hout source hsource

end Leaves

/-! ## Two runs -/

/-- A configuration file that was loaded was read. -/
theorem exists?_of_loadConfiguration {configuration : List Path} :
    ∀ {w w' : World}, (loadConfiguration configuration).exec w = (.ok (), w') →
      ∀ path ∈ configuration, w.files.exists? path = true := by
  induction configuration with
  | nil => exact fun _ => nofun
  | cons path configuration ih =>
    intro w w' h
    unfold loadConfiguration at h
    rw [Run.exec_bind_of_ok (Run.exec_note _ _ w)] at h
    obtain ⟨t, noted, htext, h⟩ := Run.exec_bind_eq_ok_iff.1 h
    obtain ⟨_, loaded, hload, hrest⟩ := Run.exec_bind_eq_ok_iff.1 h
    obtain ⟨hheld, rfl⟩ := Run.readText_eq_ok htext
    have hfiles : loaded.files = w.files := (congrArg (World.files ∘ Prod.snd) hload).symm
    refine List.forall_mem_cons.2 ⟨FileTree.exists?_of_readText hheld, ?_⟩
    rw [← hfiles]
    exact ih hrest

/-- The survey of the second run finds what that of the first one did. -/
theorem Leaves.survey_again {w surveyed : World} {s : Survey} {ready last : FileTree}
    (h : p.Leaves w.files ready last) (hwell : w.files.WellFormed) (hapart : p.Apart w.files)
    (hconfiguration : ∀ path ∈ p.settings.configurationFiles,
      Location.isAtOrBelow (w.files.place p.settings.destination) (w.files.place path) = false)
    (hrecognises : p.Recognises w.files) (hreach : p.KeepsReach w.files)
    (hsurvey : p.survey.exec w = (.ok s, surveyed)) :
    p.survey.exec (w.withFiles last) = (.ok s, surveyed.withFiles last) := by
  have hsurveyed := survey_eq_ok hsurvey
  have htells := hrecognises.tells h.readied h.prepared
  obtain ⟨loaded, hload, -⟩ := hsurveyed.exclusions
  refine Preprocessor.survey_again hsurvey (fun path hpath t hread => ?_) ?_
    (fun file hfile t hread => ?_)
  · exact h.readText (exists?_kept hreach (List.mem_append_right _ hpath)
      (exists?_of_loadConfiguration hload path hpath)) (hconfiguration path hpath) hread
  · refine collect_again hwell h.wellFormed
      (h.grown.within.workingDirectory.trans h.prepared.workingDirectory) hapart htells
      (h.tells_after hrecognises) (fun _ => h.file?_outside) (fun source hsource => ?_)
      hsurveyed.collected
    refine h.exists? (exists?_kept hreach (List.mem_append_left _ hsource) ?_)
    exact FileTree.exists?_iff.2 (resolve_of_collectFrom hsurveyed.collected source hsource)
  · exact h.readText (exists?_kept_of_found hwell hapart htells hreach hsurveyed.collected hfile
      (FileTree.exists?_of_readText hread))
      (outside_of_found hwell hapart htells hsurveyed.collected hfile) hread

section Runs

variable {w surveyed prepared : World} {s : Survey}

/-- The destination is ready when the files that were surveyed are delivered. -/
theorem ready_of_survey (hwell : w.files.WellFormed) (hdry : p.settings.dryRun = false)
    (hsurvey : p.survey.exec w = (.ok s, surveyed))
    (hprepare : (p.prepare s).exec surveyed = (.ok (), prepared)) :
    p.Readied w.files prepared.files ∧ p.Prepared w.files prepared.files := by
  have hfiles := (survey_eq_ok hsurvey).files
  rw [← hfiles] at hwell ⊢
  exact ⟨readied_of_prepare hdry hwell hprepare, (prepare_eq_ok hdry hprepare).1⟩

/-- The delivery of a run can be repeated. -/
theorem repeatable_of_survey (hwell : w.files.WellFormed) (hdry : p.settings.dryRun = false)
    (hapart : p.Apart w.files) (hincludes : p.IncludesApart w) (hrecognises : p.Recognises w.files)
    (hreach : p.KeepsReach w.files) (hsurvey : p.survey.exec w = (.ok s, surveyed))
    (hprepare : (p.prepare s).exec surveyed = (.ok (), prepared)) :
    Run.Repeatable (w.files.place p.settings.destination) (p.deliver s) prepared := by
  have hsurveyed := survey_eq_ok hsurvey
  obtain ⟨hready, hprepared⟩ := ready_of_survey hwell hdry hsurvey hprepare
  have htells := hrecognises.tells hready hprepared
  have hplace := FileTree.place_eq hprepared.workingDirectory
  refine repeatable_deliver hdry ⟨hready.wellFormed, hplace _, hready.directory⟩
    (fun scanned hscanned => ?_) (hincludes s surveyed prepared hsurvey hprepare)
    (fun file hfile => ?_)
  · have hfound : scanned.1 ∈ s.found :=
      List.mem_of_mem_filter (hsurveyed.read ▸ List.mem_map_of_mem hscanned)
    refine ⟨named_of_found hwell hsurveyed.collected hfound, hready.within.exists? ?_⟩
    exact exists?_kept_of_found hwell hapart htells hreach hsurveyed.collected hfound
      (FileTree.exists?_of_readText (hsurveyed.texts scanned hscanned))
  · have hfound := List.mem_of_mem_filter hfile
    refine ⟨named_of_found hwell hsurveyed.collected hfound, ?_⟩
    rw [hplace]
    exact outside_of_found hwell hapart htells hsurveyed.collected hfound

/-- What the run leaves. -/
theorem leaves_of_deliver {w' : World} {summary : Summary} (hwell : w.files.WellFormed)
    (hdry : p.settings.dryRun = false) (hsurvey : p.survey.exec w = (.ok s, surveyed))
    (hprepare : (p.prepare s).exec surveyed = (.ok (), prepared))
    (hrepeatable : Run.Repeatable (w.files.place p.settings.destination) (p.deliver s) prepared)
    (h : (p.deliver s).exec prepared = (.ok summary, w')) :
    p.Leaves w.files prepared.files w'.files := by
  obtain ⟨hready, hprepared⟩ := ready_of_survey hwell hdry hsurvey hprepare
  obtain ⟨hgrown, hlast, -⟩ := hrepeatable summary w' h
  exact ⟨hready, hprepared, hgrown, hlast⟩

end Runs

/-- **Running again changes nothing.** A run that writes and succeeds is repeated, from the same
variables, in the files that it leaves: it succeeds with the same summary, ends with the same
variables and leaves these files as they are. No source, configuration file or included file stands
at or below the destination; the first run recognises the destination as the second one does; and
the inputs can still be reached when the destination is cleared. -/
theorem run_again {p : Preprocessor} {w w' : World} {summary : Summary}
    (hwell : w.files.WellFormed) (hdry : p.settings.dryRun = false) (hapart : p.Apart w.files)
    (hconfiguration : ∀ path ∈ p.settings.configurationFiles,
      Location.isAtOrBelow (w.files.place p.settings.destination) (w.files.place path) = false)
    (hincludes : p.IncludesApart w) (hrecognises : p.Recognises w.files)
    (hreach : p.KeepsReach w.files) (h : p.run.exec w = (.ok summary, w')) :
    ∃ again, p.run.exec { w with files := w'.files } = (.ok summary, again) ∧
      again.files = w'.files ∧ again.globals = w'.globals := by
  rw [run_eq] at h ⊢
  obtain ⟨s, surveyed, hsurvey, h⟩ := Run.exec_bind_eq_ok_iff.1 h
  obtain ⟨_, prepared, hprepare, hdeliver⟩ := Run.exec_bind_eq_ok_iff.1 h
  have hsurveyed := survey_eq_ok hsurvey
  have hrepeatable :=
    repeatable_of_survey hwell hdry hapart hincludes hrecognises hreach hsurvey hprepare
  have hleaves := leaves_of_deliver hwell hdry hsurvey hprepare hrepeatable hdeliver
  have hsurvey' := hleaves.survey_again hwell hapart hconfiguration hrecognises hreach hsurvey
  have hlast : (surveyed.withFiles w'.files).files.WellFormed := hleaves.wellFormed
  obtain ⟨prepared', hprepare', hglobals', hactions', hfiles'⟩ :=
    prepare_again hdry (hsurveyed.files ▸ hwell) (hsurveyed.files ▸ hrecognises.clears) hprepare
      hlast (hsurveyed.files ▸ hleaves.grown)
  obtain ⟨-, hglobals, hactions⟩ := prepare_eq_ok hdry hprepare
  rw [hsurveyed.files] at hfiles'
  have hbegun : World.Repeats (w.files.place p.settings.destination) w'.files prepared prepared' :=
    ⟨hfiles', hglobals'.trans hglobals.symm, hactions'.trans hactions.symm⟩
  obtain ⟨-, -, hrepeat⟩ := hrepeatable summary w' hdeliver
  obtain ⟨again, hdeliver', hagain⟩ :=
    hrepeat w'.files prepared' hleaves.wellFormed (.refl _) hbegun
  exact ⟨again, Run.exec_bind_eq_ok_iff.2 ⟨s, _, hsurvey',
    Run.exec_bind_eq_ok_iff.2 ⟨(), prepared', hprepare', hdeliver'⟩⟩,
    hagain.files.eq hleaves.wellFormed, hagain.globals⟩

/-! ## Runs that include nothing from the destination -/

/-- A run that clears the destination and processes one file includes nothing from there: nothing is
there yet. -/
theorem includesApart_of_one {w : World} (hdry : p.settings.dryRun = false)
    (hclears : p.clears w.files = true)
    (hone : ∀ found, p.collect w.files = .ok found → (p.withHandling .process found).length ≤ 1) :
    p.IncludesApart w := by
  intro s surveyed prepared hsurvey hprepare done file t rest n mid hsplit hdone _
    chain f u begun hvisits hne
  have hsurveyed := survey_eq_ok hsurvey
  obtain ⟨hprepared, -⟩ := prepare_eq_ok hdry hprepare
  rw [hsurveyed.files] at hprepared
  -- the one file is the first
  have hlength := hone s.found hsurveyed.collected
  rw [← hsurveyed.read, hsplit, List.length_map, List.length_append, List.length_cons] at hlength
  obtain rfl : done = [] := List.eq_nil_of_length_eq_zero (by omega)
  obtain ⟨-, rfl⟩ := Prod.mk.inj hdone
  have hread := readText_of_visits hvisits hne
  rw [FileTree.readText_eq_ok_iff, FileTree.read_eq_ok_iff, hprepared.file?, hclears,
    Bool.true_and] at hread
  rw [Bool.eq_false_iff]
  intro hbelow
  rw [if_pos hbelow] at hread
  nomatch hread.2

/-- A text without an include visits no other file. -/
theorem eq_nil_of_visits {env : Environment} {file : Path} {t : Text} {m : Machine}
    (hplain : ∀ content ∈ Text.lines t, (lineKind env.marker content).isInclude = false)
    {chain : List Position} {f : Path} {u : Text} {begun : Machine}
    (h : Visits env file t m chain f u begun) : chain = [] ∧ u = t := by
  induction h with
  | start => exact ⟨rfl, rfl⟩
  | enter _ split _ effect ih =>
    obtain ⟨-, rfl⟩ := ih
    have hcontent := hplain _ (split ▸ List.mem_append_right _ List.mem_cons_self)
    obtain ⟨argument, e, name, hentering, -⟩ := entering_of_lineEffect effect
    rw [hentering.kind] at hcontent
    nomatch hcontent

/-- A run includes nothing when no text has an include. -/
theorem includesApart_of_entries {w : World}
    (hplain : ∀ location t, (location, .file (.text t)) ∈ w.files.entries →
      ∀ content ∈ Text.lines t, (lineKind p.settings.marker content).isInclude = false) :
    p.IncludesApart w := by
  intro s surveyed prepared hsurvey _ done file t rest n mid hsplit _ _ chain f u begun hvisits hne
  have hscanned : (file, t) ∈ s.texts := hsplit ▸ List.mem_append_right _ List.mem_cons_self
  obtain ⟨location, hentry, -⟩ :=
    FileTree.mem_entries_of_readText ((survey_eq_ok hsurvey).texts _ hscanned)
  exact absurd (eq_nil_of_visits (hplain location t hentry) hvisits).1 hne

/-- A source directory with a file that includes another one, and an old output. -/
def includingWorld : World where
  globals := .empty
  files :=
    { entries := [(["out".toList], .directory),
        (["out".toList, "old.txt".toList], .file (.text ['o', '\n'])), (["src".toList], .directory),
        (["src".toList, "a.txt".toList], .file (.text "//#include \"part\"\nb\n".toList)),
        (["src".toList, "part".toList], .file (.text ['p', '\n']))]
      workingDirectory := [] }
  actions := []
  log := []

theorem toOption_includingWorld :
    ((clearingRun "out".toList).run.exec includingWorld).1.toOption = some ⟨1, 0, 1⟩ := by
  decide +kernel

/-- A run that clears the destination, and the same run again. -/
theorem includingWorld_run_again : ∃ again,
    (clearingRun "out".toList).run.exec { includingWorld with
        files := ((clearingRun "out".toList).run.exec includingWorld).2.files } =
      (.ok ⟨1, 0, 1⟩, again) ∧
    again.files = ((clearingRun "out".toList).run.exec includingWorld).2.files ∧
    again.globals = ((clearingRun "out".toList).run.exec includingWorld).2.globals := by
  have hwell : includingWorld.files.WellFormed := by decide +kernel
  have hapart : (clearingRun "out".toList).Apart includingWorld.files := by decide +kernel
  have hclears : (clearingRun "out".toList).clears includingWorld.files = true := by decide +kernel
  have hexists : includingWorld.files.exists? ⟨"out".toList⟩ = true := by decide +kernel
  have hcount : ((clearingRun "out".toList).collect includingWorld.files).toOption.map
      (fun found => ((clearingRun "out".toList).withHandling .process found).length) = some 1 := by
    decide +kernel
  have hincludes : (clearingRun "out".toList).IncludesApart includingWorld := by
    refine includesApart_of_one rfl hclears fun found hfound => ?_
    rw [hfound] at hcount
    exact (Option.some.inj hcount).le
  have hreach : (clearingRun "out".toList).KeepsReach includingWorld.files := by
    intro _
    decide +kernel
  exact run_again hwell rfl hapart nofun hincludes ⟨.inl hexists, fun _ => .inl hexists⟩ hreach
    (Run.exec_eq_of_toOption toOption_includingWorld)

end Preprocessor

/-- A directory with an output of an earlier run, which the source directory holds. -/
def innerWorld : World where
  globals := .empty
  files :=
    { entries := [(["out".toList], .directory),
        (["out".toList, "old.txt".toList], .file (.text ['o', '\n']))]
      workingDirectory := [] }
  actions := []
  log := []

/-- A run from the working directory into that directory, by a path that cannot be followed yet. -/
def innerRun : Preprocessor where
  settings := { sources := [⟨['.']⟩], destination := ⟨"new/../out".toList⟩ }
  extension := none

/-- The first run does not recognise the destination and processes the old output. The second one
does, and leaves it out, so that it does not do the same. -/
theorem second_run_leaves_out :
    let first := innerRun.run.exec innerWorld
    let second := innerRun.run.exec { innerWorld with files := first.2.files }
    innerWorld.files.WellFormed ∧ innerRun.Apart innerWorld.files ∧
    innerRun.settings.configurationFiles = [] ∧ innerRun.IncludesApart innerWorld ∧
    first.1.toOption = some ⟨1, 0, 0⟩ ∧ second.1.toOption = some ⟨0, 0, 0⟩ := by
  have hincludes : innerRun.IncludesApart innerWorld := by
    refine Preprocessor.includesApart_of_entries fun location t hentry => ?_
    simp only [innerWorld, List.mem_cons, List.not_mem_nil, or_false, Prod.mk.injEq, reduceCtorEq,
      and_false, false_or, Node.file.injEq, Content.text.injEq] at hentry
    obtain ⟨-, rfl⟩ := hentry
    decide +kernel
  exact ⟨by decide +kernel, by decide +kernel, rfl, hincludes, by decide +kernel,
    by decide +kernel⟩

end SourcePreprocessor
