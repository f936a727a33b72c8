import SourcePreprocessor.Proofs.Run.Delivery

/-!
# The output tree of a run

What stands below the destination after a run without failure can be said file by file, without the
order in which the run made directories and opened files:

> `run_outputs`: below the destination, a location holds what was written to it last, the outputs of
> the files that are processed coming before the copies of the others. Where nothing was written, it
> holds what it held before the run, or nothing when the destination was cleared.

A run reads its sources while it writes, so this needs the two to be apart. A source directory below
the destination is ruled out; a destination below a source directory is left out of the walk. But a
walk can only leave out what is there: a destination whose path cannot be followed yet is not left
out, and it is not cleared either, even when the directories that are made for it make it lead to a
directory with files in it (`run_stale`).
-/

namespace SourcePreprocessor

instance : DecidablePred IsEntryName := fun _ => inferInstanceAs (Decidable (_ ∧ _ ∧ _ ∧ _))

/-! ## The files that are found -/

namespace FileTree

/-- Every name in the tree is the name of an entry. -/
def ProperNames (tree : FileTree) : Prop :=
  ∀ entry ∈ tree.entries, ∀ name ∈ entry.1, IsEntryName name

instance : DecidablePred ProperNames := fun tree =>
  inferInstanceAs (Decidable (∀ entry ∈ tree.entries, ∀ name ∈ entry.1, IsEntryName name))

/-- A file that a walk finds is an entry below its start, and not below what is left out. -/
theorem mem_filesBelow {tree : FileTree} {location names : Location} {leftOut : Option Location}
    (h : names ∈ tree.filesBelow location leftOut) :
    (∃ content, (location ++ names, .file content) ∈ tree.entries) ∧
      ∀ other, leftOut = some other → Location.isAtOrBelow location other = true →
        Location.isAtOrBelow other (location ++ names) = true → other = location ++ names := by
  obtain ⟨⟨entry, node⟩, hentry, hfound⟩ := List.mem_filterMap.1 h
  cases node with
  | directory => nomatch hfound
  | file content =>
    obtain ⟨hkept, hdrop⟩ := Option.ite_none_right_eq_some.1 hfound
    rw [Bool.and_eq_true] at hkept
    obtain ⟨rest, rfl⟩ := Location.isAtOrBelow_iff.1 hkept.1
    rw [List.drop_left] at hdrop
    obtain rfl := Option.some.inj hdrop
    refine ⟨⟨content, hentry⟩, ?_⟩
    rintro other rfl hbelow hwithin
    have hout := hkept.2
    dsimp only at hout
    rw [hbelow, hwithin] at hout
    simpa using hout

end FileTree

/-- The names that lead to the output of a file from the destination. -/
def SourceFile.names (file : SourceFile) : Location := FileTree.rawPieces file.relative

namespace Preprocessor

/-- A file that a run finds: it stands below one of the sources, and not below the destination if
that can be followed. -/
structure Found (p : Preprocessor) (tree : FileTree) (file : SourceFile) (source : Path)
    (names : Location) : Prop where
  isSource : source ∈ p.settings.sources
  eq : file = ⟨names.foldl Path.child source, ⟨Text.join ['/'] names⟩⟩
  entry : ∃ content, (tree.place source ++ names, .file content) ∈ tree.entries
  leftOut : tree.exists? p.settings.destination = true →
    Location.isAtOrBelow (tree.place source) (tree.place p.settings.destination) = true →
      Location.isAtOrBelow (tree.place p.settings.destination) (tree.place source ++ names) = true →
        tree.place p.settings.destination = tree.place source ++ names

theorem collectFrom_eq_ok {tree : FileTree} {destination : Option Location} {sources : List Path} :
    ∀ {found : List SourceFile}, collectFrom tree destination sources = .ok found →
      ∀ file ∈ found, ∃ source ∈ sources, ∃ names ∈ tree.filesBelow (tree.place source) destination,
        file = ⟨names.foldl Path.child source, ⟨Text.join ['/'] names⟩⟩ := by
  induction sources with
  | nil =>
    intro found h file hfile
    obtain rfl := Except.ok.inj h
    nomatch hfile
  | cons source sources ih =>
    intro found h file hfile
    obtain ⟨first, hfirst, h⟩ := bind_eq_ok_iff.1 h
    obtain ⟨others, hothers, h⟩ := bind_eq_ok_iff.1 h
    obtain rfl := Except.ok.inj h
    obtain hfile | hfile := List.mem_append.1 hfile
    · unfold filesOf at hfirst
      split at hfirst
      · nomatch hfirst
      · next location hlocation =>
        obtain rfl := FileTree.resolve_eq_ok hlocation
        obtain rfl := Except.ok.inj hfirst
        obtain ⟨names, hnames, rfl⟩ := List.mem_map.1 hfile
        exact ⟨source, List.mem_cons_self, names, hnames, rfl⟩
    · obtain ⟨source, hsource, hrest⟩ := ih hothers file hfile
      exact ⟨source, List.mem_cons_of_mem _ hsource, hrest⟩

theorem collect_eq_ok {p : Preprocessor} {tree : FileTree} {found : List SourceFile}
    (h : p.collect tree = .ok found) {file : SourceFile} (hfile : file ∈ found) :
    ∃ source names, p.Found tree file source names := by
  obtain ⟨source, hsource, names, hnames, rfl⟩ := collectFrom_eq_ok h file hfile
  obtain ⟨hentry, hkept⟩ := FileTree.mem_filesBelow hnames
  refine ⟨source, names, hsource, rfl, hentry, fun hexists hbelow hwithin => ?_⟩
  obtain ⟨location, hlocation⟩ := Option.isSome_iff_exists.1 hexists
  obtain rfl := FileTree.locate?_eq_some hlocation
  exact hkept _ hlocation hbelow hwithin

namespace Found

variable {p : Preprocessor} {tree : FileTree} {file : SourceFile} {source : Path}
  {names : Location}

theorem isEntryName (h : p.Found tree file source names) (hnames : tree.ProperNames) :
    ∀ name ∈ names, IsEntryName name := by
  intro name hname
  obtain ⟨content, hentry⟩ := h.entry
  exact hnames _ hentry name (List.mem_append_right _ hname)

theorem place_path (h : p.Found tree file source names) (hnames : tree.ProperNames) :
    tree.place file.path = tree.place source ++ names := by
  rw [h.eq]
  exact FileTree.place_child tree source (h.isEntryName hnames)

theorem ne_nil (h : p.Found tree file source names) (hname : file.relative.text ≠ []) :
    names ≠ [] := by
  rintro rfl
  rw [h.eq] at hname
  exact hname rfl

theorem names_eq (h : p.Found tree file source names) (hnames : tree.ProperNames)
    (hname : file.relative.text ≠ []) : file.names = names := by
  unfold SourceFile.names
  rw [h.eq]
  exact FileTree.rawPieces_join (h.ne_nil hname) (h.isEntryName hnames)

/-- The output of a file goes below the destination, where its names lead. -/
theorem place_target (h : p.Found tree file source names) (hnames : tree.ProperNames)
    (hname : file.relative.text ≠ []) :
    file.names ≠ [] ∧ tree.place (p.target file) =
      tree.place p.settings.destination ++ file.names := by
  rw [h.names_eq hnames hname]
  refine ⟨h.ne_nil hname, ?_⟩
  unfold target
  rw [h.eq]
  exact FileTree.place_join_names tree _ (h.ne_nil hname) (h.isEntryName hnames)

end Found

/-- No source directory is at or below the destination. -/
def Apart (p : Preprocessor) (tree : FileTree) : Prop :=
  ∀ source ∈ p.settings.sources,
    Location.isAtOrBelow (tree.place p.settings.destination) (tree.place source) = false

instance (p : Preprocessor) : DecidablePred p.Apart := fun tree =>
  inferInstanceAs (Decidable (∀ source ∈ p.settings.sources,
    Location.isAtOrBelow (tree.place p.settings.destination) (tree.place source) = false))

namespace Apart

variable {p : Preprocessor} {tree : FileTree} (h : p.Apart tree) (hnames : tree.ProperNames)
  {found : List SourceFile} (hcollect : p.collect tree = .ok found) {file : SourceFile}
  (hfile : file ∈ found)

include h hnames hcollect hfile

/-- The output of a file does not go to the file itself. -/
theorem ne_target (hname : file.relative.text ≠ []) :
    tree.place file.path ≠ tree.place (p.target file) := by
  obtain ⟨source, names, hfound⟩ := collect_eq_ok hcollect hfile
  have hsource := h source hfound.isSource
  intro heq
  rw [hfound.place_path hnames, (hfound.place_target hnames hname).2,
    hfound.names_eq hnames hname] at heq
  rw [List.append_cancel_right heq, Location.isAtOrBelow_iff.2 ⟨[], (List.append_nil _).symm⟩]
    at hsource
  nomatch hsource

/-- A file that is found does not stand where outputs go: where the destination can be followed, it
is left out of the walk. -/
theorem ne_below (hreached : tree.exists? p.settings.destination = true ∨
    Location.isAtOrBelow (tree.place p.settings.destination) (tree.place file.path) = false) :
    ∀ rest, rest ≠ [] → tree.place file.path ≠ tree.place p.settings.destination ++ rest := by
  intro rest hrest heq
  have hwithin : Location.isAtOrBelow (tree.place p.settings.destination)
      (tree.place file.path) = true := Location.isAtOrBelow_iff.2 ⟨rest, heq⟩
  obtain hexists | hout := hreached
  · obtain ⟨source, names, hfound⟩ := collect_eq_ok hcollect hfile
    have hsource := h source hfound.isSource
    rw [hfound.place_path hnames] at heq hwithin
    -- the source and the destination are both on the way to the file
    obtain hprefix | hprefix := List.prefix_or_prefix_of_prefix
      (List.isPrefixOf_iff_prefix.1 hwithin) (List.prefix_append (tree.place source) names)
    · rw [Location.isAtOrBelow, List.isPrefixOf_iff_prefix.2 hprefix] at hsource
      nomatch hsource
    · have hsame := hfound.leftOut hexists (List.isPrefixOf_iff_prefix.2 hprefix) hwithin
      rw [heq] at hsame
      exact hrest (List.self_eq_append_right.1 hsame)
  · rw [hwithin] at hout
    nomatch hout

end Apart

/-! ## What is written -/

/-- What was written for files, by the names that lead there from the destination. -/
def writesOf (files : List (SourceFile × Content)) : List (Location × Content) :=
  files.map fun file => (file.1.names, file.2)

theorem writesBelow_writesOf (directory : Location) (files others : List (SourceFile × Content)) :
    FileTree.writesBelow directory (writesOf files) ++
      FileTree.writesBelow directory (writesOf others) =
        FileTree.writesBelow directory (writesOf (files ++ others)) := by
  unfold FileTree.writesBelow writesOf
  rw [List.map_append, List.map_append]

theorem ne_nil_of_installAll {p : Preprocessor} {tree changed : FileTree}
    {files : List (SourceFile × Content)}
    (h : tree.installAll (files.map fun file => (p.target file.1, file.2)) = (.ok (), changed)) :
    ∀ file ∈ files, file.1.relative.text ≠ [] := by
  intro file hfile
  obtain ⟨before, after, hinstall⟩ :=
    FileTree.install_of_installAll h _ (List.mem_map_of_mem hfile)
  obtain ⟨made, -, hwrite⟩ := FileTree.install_eq_ok hinstall
  exact FileTree.ne_nil_of_write_join hwrite

section Targets

variable {p : Preprocessor} {tree : FileTree} (hnames : tree.ProperNames) {found : List SourceFile}
  (hcollect : p.collect tree = .ok found) {files : List (SourceFile × Content)}
  (hfound : ∀ file ∈ files, file.1 ∈ found) (hne : ∀ file ∈ files, file.1.relative.text ≠ [])

include hnames hcollect hfound hne

/-- What is written for files goes where their names lead from the destination. -/
theorem written_targets {before after : FileTree}
    (hwd : before.workingDirectory = tree.workingDirectory)
    (h : before.Written (files.map fun file => (before.place (p.target file.1), file.2)) after) :
    before.Written
      (FileTree.writesBelow (tree.place p.settings.destination) (writesOf files)) after := by
  have hmap : files.map (fun file => (before.place (p.target file.1), file.2)) =
      FileTree.writesBelow (tree.place p.settings.destination) (writesOf files) := by
    unfold FileTree.writesBelow writesOf
    rw [List.map_map]
    refine List.map_congr_left fun file hfile => ?_
    obtain ⟨source, names, hfile'⟩ := collect_eq_ok hcollect (hfound file hfile)
    rw [FileTree.place_eq hwd, (hfile'.place_target hnames (hne file hfile)).2]
    rfl
  exact hmap ▸ h

/-- Nothing is written to the destination itself. -/
theorem ne_nil_of_mem_writesOf : ∀ write ∈ writesOf files, write.1 ≠ [] := by
  intro write hwrite
  obtain ⟨file, hfile, rfl⟩ := List.mem_map.1 hwrite
  obtain ⟨source, names, hfile'⟩ := collect_eq_ok hcollect (hfound file hfile)
  exact (hfile'.place_target hnames (hne file hfile)).1

end Targets

/-- Where outputs do not go, making the destination ready changes nothing. -/
theorem Prepared.file?_of_ne_below {p : Preprocessor} {tree prepared : FileTree}
    (h : p.Prepared tree prepared) {location : Location}
    (hne : ∀ rest, rest ≠ [] → location ≠ tree.place p.settings.destination ++ rest) :
    prepared.file? location = tree.file? location := by
  rw [h.file?]
  split
  · next hcleared =>
    rw [Bool.and_eq_true] at hcleared
    obtain ⟨rest, rfl⟩ := Location.isAtOrBelow_iff.1 hcleared.2
    have hrest : rest = [] := Classical.byContradiction fun hrest => hne rest hrest rfl
    rw [hrest, List.append_nil, h.directory hcleared.1]
  · rfl

theorem length_withHandling (p : Preprocessor) (found : List SourceFile) :
    (p.withHandling .process found).length + (p.withHandling .exclude found).length +
      (p.withHandling .copy found).length = found.length := by
  unfold withHandling
  induction found with
  | nil => rfl
  | cons file found ih =>
    simp only [List.filter_cons]
    cases p.settings.handling file.path <;> simp <;> omega

/-- What a run without failure did with the files that it found. -/
structure Delivered (p : Preprocessor) (w : World) (s : Survey) (globals : Table)
    (prepared : FileTree) (outputs : List (SourceFile × Text))
    (copied : List (SourceFile × Content)) (tree : FileTree) : Prop where
  /-- Each output is that of the line pass with the variables that the file before it left. -/
  linePass : p.linePass s.excluded s.texts prepared globals w.actions = .ok outputs
  /-- Of the files to process, those have an output that no condition leaves out. -/
  processed : outputs.map Prod.fst = (p.withHandling .process s.found).filter fun file =>
    !s.excluded.any file.path.same
  copies : copied.map Prod.fst = p.withHandling .copy s.found
  /-- A copy holds what its source held before the run. This leaves out sources below a destination
  that could not be followed. -/
  contents : ∀ copy ∈ copied, w.files.exists? p.settings.destination = true ∨
      Location.isAtOrBelow (w.files.place p.settings.destination)
        (w.files.place copy.1.path) = false →
    w.files.file? (w.files.place copy.1.path) = some copy.2
  /-- Below the destination the last write counts. Nothing else changes, unless it is cleared. -/
  files : ∀ names, tree.file? (w.files.place p.settings.destination ++ names) =
    (FileTree.lastAt (writesOf (outputFiles outputs ++ copied)) names).or
      (if p.clears w.files then none
        else w.files.file? (w.files.place p.settings.destination ++ names))
  elsewhere : ∀ location,
    Location.isAtOrBelow (w.files.place p.settings.destination) location = false →
      tree.file? location = w.files.file? location

section Delivery

variable {p : Preprocessor} {w surveyed prepared processed w' : World} {s : Survey}
  (hnames : w.files.ProperNames) (hdry : p.settings.dryRun = false)
  (hsurveyed : p.Surveyed w s surveyed)

include hnames hdry hsurveyed

/-- The outputs of the line pass are written below the destination. -/
theorem written_processAll (hwd : prepared.files.workingDirectory = w.files.workingDirectory)
    {n : Nat} (h : (p.processAll s.excluded s.texts).exec prepared = (.ok n, processed)) :
    ∃ outputs, p.linePass s.excluded s.texts prepared.files prepared.globals prepared.actions =
        .ok outputs ∧ outputs.length = n ∧
      outputs.map Prod.fst = ((p.withHandling .process s.found).filter fun file =>
        !s.excluded.any file.path.same) ∧
      (∀ write ∈ writesOf (outputFiles outputs), write.1 ≠ []) ∧
      prepared.files.Written (FileTree.writesBelow (w.files.place p.settings.destination)
        (writesOf (outputFiles outputs))) processed.files := by
  obtain ⟨outputs, hpass, hlength, hfiles, hinstall⟩ := processAll_eq_ok hdry h
  rw [hsurveyed.read] at hfiles
  have hfound : ∀ file ∈ outputFiles outputs, file.1 ∈ s.found := by
    intro file hfile
    obtain ⟨output, houtput, rfl⟩ := List.mem_map.1 hfile
    have hmem : output.1 ∈ outputs.map Prod.fst := List.mem_map_of_mem houtput
    rw [hfiles] at hmem
    exact (List.mem_filter.1 (List.mem_filter.1 hmem).1).1
  have hne := ne_nil_of_installAll hinstall
  have hwritten := FileTree.written_installAll hinstall
  rw [List.map_map] at hwritten
  exact ⟨outputs, hpass, hlength, hfiles,
    ne_nil_of_mem_writesOf hnames hsurveyed.collected hfound hne,
    written_targets hnames hsurveyed.collected hfound hne hwd hwritten⟩

/-- The copies are written below the destination, and a source that is not there keeps its content
until it is copied. -/
theorem written_copyAll (hapart : p.Apart w.files)
    (hwd : processed.files.workingDirectory = w.files.workingDirectory)
    (h : (p.copyAll (p.withHandling .copy s.found)).exec processed = (.ok (), w')) :
    ∃ copied, copied.map Prod.fst = p.withHandling .copy s.found ∧
      (∀ copy ∈ copied, (∀ rest, rest ≠ [] → w.files.place copy.1.path ≠
          w.files.place p.settings.destination ++ rest) →
        processed.files.file? (w.files.place copy.1.path) = some copy.2) ∧
      processed.files.Written (FileTree.writesBelow (w.files.place p.settings.destination)
        (writesOf copied)) w'.files := by
  have hcollect := hsurveyed.collected
  have hplaces := fun path => FileTree.place_eq hwd path
  have hcopies : ∀ file ∈ p.withHandling .copy s.found, file ∈ s.found :=
    fun file hfile => (List.mem_filter.1 hfile).1
  obtain ⟨copied, hcopied, hne, hcontents, hwritten⟩ := copyAll_eq_ok hdry h (by
    intro file hfile hname
    rw [hplaces, hplaces]
    exact hapart.ne_target hnames hcollect (hcopies file hfile) hname)
  have hfound : ∀ copy ∈ copied, copy.1 ∈ s.found := by
    intro copy hcopy
    have hmem : copy.1 ∈ copied.map Prod.fst := List.mem_map_of_mem hcopy
    rw [hcopied] at hmem
    exact hcopies copy.1 hmem
  refine ⟨copied, hcopied, fun copy hcopy hbelow => ?_,
    written_targets hnames hcollect hfound hne hwd hwritten⟩
  rw [← hplaces]
  refine hcontents copy hcopy fun other hother => ?_
  obtain ⟨source, names, hother'⟩ := collect_eq_ok hcollect (hfound other hother)
  obtain ⟨hrest, htarget⟩ := hother'.place_target hnames (hne other hother)
  rw [hplaces, hplaces, htarget]
  exact hbelow _ hrest

/-- The second half of a run, seen from the files that the survey found. -/
theorem deliver_eq_ok (hapart : p.Apart w.files) (hprepared : p.Prepared w.files prepared.files)
    (hactions : prepared.actions = w.actions) {summary : Summary}
    (h : (p.deliver s).exec prepared = (.ok summary, w')) :
    ∃ outputs copied, p.Delivered w s prepared.globals prepared.files outputs copied w'.files ∧
      summary = p.summary s outputs.length := by
  unfold deliver at h
  obtain ⟨n, processed, hprocess, h⟩ := Run.exec_bind_eq_ok_iff.1 h
  obtain ⟨_, last, hcopy, h⟩ := Run.exec_bind_eq_ok_iff.1 h
  rw [Run.exec_bind_of_ok (Run.exec_note _ _ last)] at h
  obtain ⟨hsummary, rfl⟩ := Prod.mk.inj h
  obtain ⟨outputs, hpass, rfl, hfiles, hne, houtputs⟩ :=
    written_processAll hnames hdry hsurveyed hprepared.workingDirectory hprocess
  obtain ⟨copied, hcopied, hcontents, hcopies⟩ := written_copyAll hnames hdry hsurveyed hapart
    (houtputs.workingDirectory.trans hprepared.workingDirectory) hcopy
  have hall := houtputs.trans hcopies
  rw [writesBelow_writesOf] at hall
  refine ⟨outputs, copied, ⟨?_, hfiles, hcopied, ?_, ?_, ?_⟩, (Except.ok.inj hsummary).symm⟩
  · rw [← hactions]
    exact hpass
  · intro copy hcopy hreached
    have hmem : copy.1 ∈ copied.map Prod.fst := List.mem_map_of_mem hcopy
    rw [hcopied] at hmem
    have hbelow := hapart.ne_below hnames hsurveyed.collected (List.mem_filter.1 hmem).1 hreached
    -- no output goes to the source of the copy, and making the destination ready leaves it
    have hheld := hcontents copy hcopy hbelow
    rw [houtputs.file?, FileTree.lastAt_writesBelow_eq_none, Option.none_or,
      hprepared.file?_of_ne_below hbelow] at hheld
    · exact hheld
    · exact fun write hwrite => hbelow _ (hne write hwrite)
  · intro names
    have hbelow : Location.isAtOrBelow (w.files.place p.settings.destination)
        (w.files.place p.settings.destination ++ names) = true :=
      Location.isAtOrBelow_iff.2 ⟨names, rfl⟩
    rw [hall.file?, FileTree.lastAt_writesBelow, hprepared.file?, hbelow, Bool.and_true]
  · intro location hlocation
    rw [hall.file?, FileTree.lastAt_writesBelow_eq_none, Option.none_or, hprepared.file?, hlocation,
      Bool.and_false]
    · rfl
    · rintro write - rfl
      rw [Location.isAtOrBelow_iff.2 ⟨write.1, rfl⟩] at hlocation
      nomatch hlocation

end Delivery

/-- **The output tree of a run.** Let the names of the tree be names of entries, and let the sources
be apart from the destination. When a run that writes does not fail, the files below the destination
are those that were written last, and elsewhere nothing changes. Every file that was found was
processed, left out or copied. -/
theorem run_outputs {p : Preprocessor} {w w' : World} {summary : Summary}
    (hnames : w.files.ProperNames) (hdry : p.settings.dryRun = false) (hapart : p.Apart w.files)
    (h : p.run.exec w = (.ok summary, w')) :
    ∃ s surveyed prepared outputs copied,
      p.survey.exec w = (.ok s, surveyed) ∧ p.Surveyed w s surveyed ∧
      (p.prepare s).exec surveyed = (.ok (), prepared) ∧ p.Prepared w.files prepared.files ∧
      p.Delivered w s surveyed.globals prepared.files outputs copied w'.files ∧
      summary.processed + summary.excluded + summary.copied = s.found.length := by
  rw [run_eq] at h
  obtain ⟨s, surveyed, hsurvey, h⟩ := Run.exec_bind_eq_ok_iff.1 h
  obtain ⟨_, prepared, hprepare, h⟩ := Run.exec_bind_eq_ok_iff.1 h
  have hsurveyed := survey_eq_ok hsurvey
  obtain ⟨hprepared, hglobals, hactions⟩ := prepare_eq_ok hdry hprepare
  rw [hsurveyed.files] at hprepared
  obtain ⟨outputs, copied, hdelivered, rfl⟩ :=
    deliver_eq_ok hnames hdry hsurveyed hapart hprepared (hactions.trans hsurveyed.actions) h
  rw [hglobals] at hdelivered
  refine ⟨s, surveyed, prepared, outputs, copied, hsurvey, hsurveyed, hprepare, hprepared,
    hdelivered, ?_⟩
  have hlength := p.length_withHandling s.found
  have hle : outputs.length ≤ (p.withHandling .process s.found).length := by
    have hfiles := congrArg List.length hdelivered.processed
    rw [List.length_map] at hfiles
    exact hfiles ▸ List.length_filter_le _ _
  unfold Preprocessor.summary
  dsimp only
  omega

end Preprocessor

/-! ## Two runs over a small tree -/

/-- A source directory with a file to process and one to copy, and a directory with an output of
an earlier run. -/
def smallTree : FileTree where
  entries := [(["out".toList], .directory), (["out".toList, "old".toList], .file (.text ['o'])),
    (["src".toList], .directory), (["src".toList, "a.txt".toList], .file (.text ['a'])),
    (["src".toList, "b".toList], .file (.bytes [255]))]
  workingDirectory := []

/-- A run over the small tree that clears the given destination. -/
def clearingRun (destination : Text) : Preprocessor where
  settings := { sources := [⟨"src".toList⟩], destination := ⟨destination⟩, clear := true }
  extension := none

/-- The small tree at the start of a run. -/
def smallWorld : World := ⟨.empty, smallTree, [], []⟩

theorem toOption_clearingRun :
    ((clearingRun "out".toList).run.exec smallWorld).1.toOption = some ⟨1, 0, 1⟩ := by
  decide +kernel

/-- The old output is gone, and the two files of the source directory are there. -/
theorem clearingRun_outputs : ∃ s surveyed prepared outputs copied,
    (clearingRun "out".toList).survey.exec smallWorld = (.ok s, surveyed) ∧
    (clearingRun "out".toList).Surveyed smallWorld s surveyed ∧
    ((clearingRun "out".toList).prepare s).exec surveyed = (.ok (), prepared) ∧
    (clearingRun "out".toList).Prepared smallTree prepared.files ∧
    (clearingRun "out".toList).Delivered smallWorld s surveyed.globals prepared.files outputs copied
      ((clearingRun "out".toList).run.exec smallWorld).2.files ∧ 1 + 0 + 1 = s.found.length := by
  have hrun := Run.exec_eq_of_toOption toOption_clearingRun
  have hapart : (clearingRun "out".toList).Apart smallWorld.files := by decide +kernel
  have hnames : smallWorld.files.ProperNames := by decide +kernel
  exact Preprocessor.run_outputs hnames rfl hapart hrun

/-- A destination that cannot be followed is not cleared: the directories that are made for it make
it lead to a directory that was there. An old output stays in it, though no file that was found goes
there and no source is below it. -/
theorem run_stale :
    let p := clearingRun "new/../out".toList
    let after := p.run.exec smallWorld
    smallTree.place p.settings.destination = ["out".toList] ∧ p.settings.clear = true ∧
    p.Apart smallTree ∧
    (p.collect smallTree).toOption.map (·.map SourceFile.names) =
      some [["a.txt".toList], ["b".toList]] ∧
    after.1.toOption = some ⟨1, 0, 1⟩ ∧
    after.2.files.file? ["out".toList, "old".toList] = some (.text ['o']) := by
  decide +kernel

end SourcePreprocessor
