import SourcePreprocessor.Proofs.File.Repeating
import SourcePreprocessor.Proofs.Run.OutputTree

/-!
# Surveying again

After a run the files below the destination are others, and the survey of the next run has to come
to the same: the same configuration, the same files below the source directories, the same texts in
them.

> `survey_again`: a survey that reads the same and finds the same gives the same;
> `collect_again`: the files that are found are the same when all files outside the destination are,
> and a walk can tell the destination in both trees.
-/

namespace SourcePreprocessor

/-- The world with other files. -/
def World.withFiles (w : World) (files : FileTree) : World := { w with files }

namespace Run

variable {α β : Type} {step : Run α}

/-! ## Steps that ignore the files -/

/-- A step gives the same and does the same to the rest of the world, whatever the files are. -/
def IgnoresFiles (step : Run α) : Prop :=
  ∀ w files, step.exec (w.withFiles files) = ((step.exec w).1, (step.exec w).2.withFiles files)

theorem ignoresFiles_pure (a : α) : IgnoresFiles (pure a : Run α) := fun _ _ => rfl

theorem ignoresFiles_note (level : LogLevel) (text : String) : IgnoresFiles (note level text) :=
  fun _ _ => rfl

theorem IgnoresFiles.bind {next : α → Run β} (hstep : IgnoresFiles step)
    (hnext : ∀ a, IgnoresFiles (next a)) : IgnoresFiles (step >>= next) := by
  intro w files
  rw [exec_bind, exec_bind, hstep w files]
  match step.exec w with
  | (.error d, after) => rfl
  | (.ok a, after) => exact hnext a after files

theorem IgnoresFiles.eq {w w' : World} {a : α} (h : IgnoresFiles step)
    (hexec : step.exec w = (.ok a, w')) (files : FileTree) :
    step.exec (w.withFiles files) = (.ok a, w'.withFiles files) := by
  rw [h w files, hexec]

theorem exec_readText {w : World} {path : Path} {t : Text} (h : w.files.readText path = .ok t) :
    (readText path).exec w = (.ok t, w) := by
  show ((w.files.readText path).mapError _, w) = _
  rw [h]
  rfl

theorem readText_eq_ok {w w' : World} {path : Path} {t : Text}
    (h : (readText path).exec w = (.ok t, w')) : w.files.readText path = .ok t ∧ w' = w := by
  obtain ⟨hresult, rfl⟩ := Prod.mk.inj h
  exact ⟨mapError_eq_ok_iff.1 hresult, rfl⟩

end Run

theorem ignoresFiles_loadConfigurationText (file : Path) (t : Text) :
    Run.IgnoresFiles (loadConfigurationText file t) := fun _ _ => rfl

/-- Loading the configuration again, from files that hold the same. -/
theorem loadConfiguration_again {configuration : List Path} {files : FileTree} :
    ∀ {w w' : World}, (loadConfiguration configuration).exec w = (.ok (), w') →
      (∀ path ∈ configuration, ∀ t, w.files.readText path = .ok t → files.readText path = .ok t) →
      (loadConfiguration configuration).exec (w.withFiles files) =
        (.ok (), w'.withFiles files) := by
  induction configuration with
  | nil =>
    intro w w' h _
    obtain ⟨-, rfl⟩ := Prod.mk.inj h
    rfl
  | cons path configuration ih =>
    intro w w' h hread
    rw [List.forall_mem_cons] at hread
    unfold loadConfiguration at h ⊢
    rw [Run.exec_bind_of_ok (Run.exec_note _ _ w)] at h
    obtain ⟨t, noted, htext, h⟩ := Run.exec_bind_eq_ok_iff.1 h
    obtain ⟨_, loaded, hload, hrest⟩ := Run.exec_bind_eq_ok_iff.1 h
    obtain ⟨hheld, rfl⟩ := Run.readText_eq_ok htext
    have hfiles : loaded.files = w.files := (congrArg (World.files ∘ Prod.snd) hload).symm
    rw [Run.exec_bind_of_ok (Run.exec_note _ _ (w.withFiles files)),
      Run.exec_bind_of_ok (Run.exec_readText (hread.1 t hheld))]
    have hagain := (ignoresFiles_loadConfigurationText path t).eq hload files
    exact Run.exec_bind_eq_ok_iff.2 ⟨(), _, hagain, ih hrest (hfiles ▸ hread.2)⟩

namespace Preprocessor

theorem ignoresFiles_noteSkipped (files : List SourceFile) :
    Run.IgnoresFiles (noteSkipped files) := by
  induction files with
  | nil => exact Run.ignoresFiles_pure ()
  | cons file files ih =>
    unfold noteSkipped
    exact (Run.ignoresFiles_note _ _).bind fun _ => ih

theorem ignoresFiles_excludedFiles (exclusions : List Exclusion) (excluded : List Path) :
    Run.IgnoresFiles (excludedFiles exclusions excluded) := by
  induction exclusions generalizing excluded with
  | nil => exact Run.ignoresFiles_pure excluded
  | cons exclusion exclusions ih =>
    intro w files
    have hnext : ∀ holds, Run.IgnoresFiles (if holds = true then do
        Run.note .information ("Excluding " ++ exclusion.position.file.string ++
          " (excludeif at line " ++ toString exclusion.position.line ++ ")")
        excludedFiles exclusions (if excluded.any exclusion.position.file.same then excluded
          else excluded ++ [exclusion.position.file])
      else excludedFiles exclusions excluded) := by
      intro holds
      cases holds with
      | false => exact ih excluded
      | true => exact (Run.ignoresFiles_note _ _).bind fun _ => ih _
    unfold excludedFiles
    rw [Run.exec_bind_of_ok (Run.exec_get w),
      Run.exec_bind_of_ok (Run.exec_get (w.withFiles files))]
    have hcondition : Run.IgnoresFiles (Run.ofExcept (exclusion.holds w.globals)) := fun _ _ => rfl
    exact hcondition.bind hnext w files

theorem ignoresFiles_scan (p : Preprocessor) (file : Path) (t : Text) :
    Run.IgnoresFiles (p.scan file t) := fun _ _ => rfl

/-- Scanning files again that hold the same. -/
theorem scanAll_again {p : Preprocessor} {sources : List SourceFile} {files : FileTree} :
    ∀ {w w' : World} {result : List (SourceFile × Text) × List Exclusion},
      (p.scanAll sources).exec w = (.ok result, w') →
      (∀ file ∈ sources, ∀ t, w.files.readText file.path = .ok t →
        files.readText file.path = .ok t) →
      (p.scanAll sources).exec (w.withFiles files) = (.ok result, w'.withFiles files) := by
  induction sources with
  | nil =>
    intro w w' result h _
    obtain ⟨hok, rfl⟩ := Prod.mk.inj h
    obtain rfl := Except.ok.inj hok
    rfl
  | cons file sources ih =>
    intro w w' result h hread
    rw [List.forall_mem_cons] at hread
    unfold scanAll at h ⊢
    obtain ⟨t, before, htext, h⟩ := Run.exec_bind_eq_ok_iff.1 h
    obtain ⟨own, scanned, hscan, h⟩ := Run.exec_bind_eq_ok_iff.1 h
    obtain ⟨rest, last, hrest, hpure⟩ := Run.exec_bind_eq_ok_iff.1 h
    obtain ⟨hheld, rfl⟩ := Run.readText_eq_ok htext
    obtain ⟨-, -, -, -, hfiles⟩ := scan_eq_ok hscan
    rw [Run.exec_bind_of_ok (Run.exec_readText (hread.1 t hheld)),
      Run.exec_bind_of_ok ((p.ignoresFiles_scan file.path t).eq hscan files),
      Run.exec_bind_of_ok (ih hrest (hfiles ▸ hread.2))]
    exact (Run.ignoresFiles_pure _).eq hpure files

/-- A survey that finds the same files, and reads the same in them and in the configuration. -/
theorem survey_again {p : Preprocessor} {w after : World} {s : Survey} {files : FileTree}
    (h : p.survey.exec w = (.ok s, after))
    (hconfiguration : ∀ path ∈ p.settings.configurationFiles, ∀ t,
      w.files.readText path = .ok t → files.readText path = .ok t)
    (hcollect : p.collect files = .ok s.found)
    (htexts : ∀ file ∈ s.found, ∀ t, w.files.readText file.path = .ok t →
      files.readText file.path = .ok t) :
    p.survey.exec (w.withFiles files) = (.ok s, after.withFiles files) := by
  have hcollected := (survey_eq_ok h).collected
  unfold survey at h ⊢
  obtain ⟨_, loaded, hload, h⟩ := Run.exec_bind_eq_ok_iff.1 h
  rw [Run.exec_bind_of_ok (Run.exec_get loaded)] at h
  obtain ⟨found, before, hfound, h⟩ := Run.exec_bind_eq_ok_iff.1 h
  obtain ⟨_, skipped, hskip, h⟩ := Run.exec_bind_eq_ok_iff.1 h
  rw [Run.exec_bind_of_ok (Run.exec_note _ _ skipped)] at h
  obtain ⟨scan, scanned, hscan, h⟩ := Run.exec_bind_eq_ok_iff.1 h
  obtain ⟨excluded, last, hexcluded, hpure⟩ := Run.exec_bind_eq_ok_iff.1 h
  obtain ⟨hresult, rfl⟩ := Prod.mk.inj hfound
  have hloaded : loaded.files = w.files :=
    congrArg Prod.fst ((keeps_loadConfiguration _).eq hload)
  have hskipped : skipped.files = w.files :=
    ((keeps_noteSkipped World.files (fun _ _ => rfl) _).eq hskip).trans hloaded
  obtain rfl : found = s.found := by
    have hresult : p.collect loaded.files = .ok found := hresult
    rw [hloaded, hcollected] at hresult
    exact (Except.ok.inj hresult).symm
  have hsources : ∀ file ∈ p.withHandling .process s.found, ∀ t,
      skipped.files.readText file.path = .ok t → files.readText file.path = .ok t := by
    intro file hfile
    rw [hskipped]
    exact htexts file (List.mem_of_mem_filter hfile)
  have hfound' : (Run.ofExcept (p.collect files)).exec (loaded.withFiles files) =
      (.ok s.found, loaded.withFiles files) := by
    rw [hcollect]
    rfl
  refine Run.exec_bind_eq_ok_iff.2 ⟨(), _, loadConfiguration_again hload hconfiguration, ?_⟩
  rw [Run.exec_bind_of_ok (Run.exec_get _)]
  refine Run.exec_bind_eq_ok_iff.2 ⟨s.found, _, hfound', ?_⟩
  refine Run.exec_bind_eq_ok_iff.2 ⟨(), _, (ignoresFiles_noteSkipped _).eq hskip files, ?_⟩
  rw [Run.exec_bind_of_ok (Run.exec_note _ _ _)]
  refine Run.exec_bind_eq_ok_iff.2 ⟨scan, _, scanAll_again hscan hsources, ?_⟩
  refine Run.exec_bind_eq_ok_iff.2 ⟨excluded, _, ?_, (Run.ignoresFiles_pure _).eq hpure files⟩
  exact (ignoresFiles_excludedFiles _ _).eq hexcluded files

end Preprocessor

/-! ## Walking again -/

namespace FileTree

/-- Whether a walk from a location that does not enter a directory comes to an entry below it. -/
def isWalked (location : Location) (leftOut : Option Location) (entry : Location) : Bool :=
  Location.isAtOrBelow location entry &&
    match leftOut with
    | none => true
    | some other =>
      !(Location.isAtOrBelow location other && Location.isAtOrBelow other entry && other ≠ entry)

/-- A walk finds some of the files, in the order of the entries. -/
theorem filesBelow_eq (tree : FileTree) (location : Location) (leftOut : Option Location) :
    tree.filesBelow location leftOut = (tree.entries.filter fun entry =>
      entry.2 ≠ .directory && isWalked location leftOut entry.1).map
        fun entry => entry.1.drop location.length := by
  rw [← List.filterMap_eq_map, List.filterMap_filter]
  refine List.filterMap_congr fun entry _ => ?_
  obtain ⟨own, node⟩ := entry
  cases node with
  | directory => rfl
  | file content => cases leftOut <;> simp [isWalked]

/-- Two walks find the same when they come to the same files, with the same content. -/
theorem filesBelow_congr {tree other : FileTree} (hwell : tree.WellFormed)
    (hother : other.WellFormed) {location : Location} {leftOut leftOut' : Option Location}
    (h : ∀ entry content, tree.node? entry = some (.file content) ∧
        isWalked location leftOut entry = true ↔
      other.node? entry = some (.file content) ∧ isWalked location leftOut' entry = true) :
    other.filesBelow location leftOut' = tree.filesBelow location leftOut := by
  rw [filesBelow_eq, filesBelow_eq]
  refine congrArg _ ((hother.sorted.filter _).eq_of_mem_iff (hwell.sorted.filter _) fun entry => ?_)
  obtain ⟨own, node⟩ := entry
  rw [List.mem_filter, List.mem_filter, hother.mem_entries_iff, hwell.mem_entries_iff]
  cases node with
  | directory => simp
  | file content =>
    have hsame := h own content
    simp only [ne_eq, reduceCtorEq, not_false_eq_true, decide_true, Bool.true_and]
    tauto

theorem file?_eq_some_iff {tree : FileTree} {location : Location} {content : Content} :
    tree.file? location = some content ↔ tree.node? location = some (.file content) := by
  unfold file?
  cases tree.node? location with
  | none => simp
  | some node => cases node <;> simp [Node.content?]

end FileTree

namespace Preprocessor

/-- The walks can tell the destination: its path leads to something, or nothing stands at its place,
or its place is not below a source. -/
def Tells (p : Preprocessor) (tree : FileTree) : Prop :=
  tree.exists? p.settings.destination = true ∧
      tree.file? (tree.place p.settings.destination) = none ∨
    tree.node? (tree.place p.settings.destination) = none ∨
    ∀ source ∈ p.settings.sources, Location.isAtOrBelow (tree.place source)
      (tree.place p.settings.destination) = false

section Walks

variable {p : Preprocessor} {tree : FileTree} {source : Path} {entry : Location}

/-- Outside the destination, the walk from a source comes to everything. -/
theorem isWalked_outside
    (h : Location.isAtOrBelow (tree.place p.settings.destination) entry = false) :
    FileTree.isWalked (tree.place source) (tree.locate? p.settings.destination) entry =
      Location.isAtOrBelow (tree.place source) entry := by
  unfold FileTree.isWalked
  cases hlocate : tree.locate? p.settings.destination with
  | none => exact Bool.and_true _
  | some other =>
    obtain rfl := FileTree.locate?_eq_some hlocate
    dsimp only
    rw [h, Bool.and_false, Bool.false_and, Bool.not_false, Bool.and_true]

/-- What stands below a source and below the destination does so because the destination is below
the source: it cannot be the other way. -/
theorem nested_of_apart (hapart : p.Apart tree) (hsource : source ∈ p.settings.sources)
    (hbelow : Location.isAtOrBelow (tree.place p.settings.destination) entry = true)
    (hunder : Location.isAtOrBelow (tree.place source) entry = true) :
    Location.isAtOrBelow (tree.place source) (tree.place p.settings.destination) = true := by
  obtain hprefix | hprefix := List.prefix_or_prefix_of_prefix
    (List.isPrefixOf_iff_prefix.1 hbelow) (List.isPrefixOf_iff_prefix.1 hunder)
  · have hout := hapart source hsource
    unfold Location.isAtOrBelow at hout
    rw [List.isPrefixOf_iff_prefix.2 hprefix] at hout
    nomatch hout
  · exact List.isPrefixOf_iff_prefix.2 hprefix

/-- At and below the destination, it comes to no file. -/
theorem isWalked_destination (hwell : tree.WellFormed) (hapart : p.Apart tree)
    (htells : p.Tells tree) (hsource : source ∈ p.settings.sources)
    (hbelow : Location.isAtOrBelow (tree.place p.settings.destination) entry = true)
    (hfile : (tree.file? entry).isSome = true) :
    FileTree.isWalked (tree.place source) (tree.locate? p.settings.destination) entry = false := by
  rw [Bool.eq_false_iff]
  intro hwalked
  -- the destination is on the way from the source
  have hnested := nested_of_apart hapart hsource hbelow (Bool.and_eq_true_iff.1 hwalked).1
  obtain ⟨content, hnode⟩ := FileTree.isSome_file?_iff.1 hfile
  obtain ⟨hexists, hnone⟩ | hnone | hout := htells
  · obtain ⟨other, hother⟩ := Option.isSome_iff_exists.1 hexists
    obtain rfl := FileTree.locate?_eq_some hother
    have hne : tree.place p.settings.destination ≠ entry := by
      intro heq
      rw [heq] at hnone
      rw [hnone] at hfile
      nomatch hfile
    unfold FileTree.isWalked at hwalked
    rw [hother] at hwalked
    simp [hnested, hbelow, hne] at hwalked
  · obtain ⟨rest, rfl⟩ := Location.isAtOrBelow_iff.1 hbelow
    cases rest with
    | nil =>
      rw [List.append_nil, hnone] at hnode
      nomatch hnode
    | cons name rest =>
      rw [hwell.node?_of_below (List.cons_ne_nil _ _) hnode] at hnone
      nomatch hnone
  · rw [hout source hsource] at hnested
    nomatch hnested

/-- A file that is found does not stand at or below the destination. -/
theorem outside_of_found (hwell : tree.WellFormed) (hapart : p.Apart tree) (htells : p.Tells tree)
    {found : List SourceFile} (hcollect : p.collect tree = .ok found) {file : SourceFile}
    (hfile : file ∈ found) :
    Location.isAtOrBelow (tree.place p.settings.destination) (tree.place file.path) = false := by
  obtain ⟨source, hsource, names, hnames, heq⟩ := collectFrom_eq_ok hcollect file hfile
  rw [FileTree.filesBelow_eq] at hnames
  obtain ⟨⟨entry, node⟩, hentry, hdrop⟩ := List.mem_map.1 hnames
  obtain ⟨hmem, hkept⟩ := List.mem_filter.1 hentry
  rw [Bool.and_eq_true, decide_eq_true_eq] at hkept
  obtain ⟨hne, hnode⟩ := hwell.mem_entries_iff.1 hmem
  have hplace : tree.place file.path = entry := by
    obtain ⟨rest, rfl⟩ := Location.isAtOrBelow_iff.1 (Bool.and_eq_true_iff.1 hkept.2).1
    rw [List.drop_left] at hdrop
    obtain rfl := hdrop
    rw [heq, FileTree.place_child]
    exact fun name hname => hwell.names _ hmem name (List.mem_append_right _ hname)
  rw [hplace, Bool.eq_false_iff]
  intro hbelow
  have hsome : (tree.file? entry).isSome = true := by
    cases node with
    | directory => exact absurd rfl hkept.1
    | file content => exact FileTree.isSome_file?_iff.2 ⟨content, hnode⟩
  have hout := isWalked_destination hwell hapart htells hsource hbelow hsome
  rw [hkept.2] at hout
  nomatch hout

theorem collectFrom_congr {tree other : FileTree} {destination destination' : Option Location}
    {sources : List Path}
    (h : ∀ source ∈ sources, filesOf other destination' source = filesOf tree destination source) :
    collectFrom other destination' sources = collectFrom tree destination sources := by
  induction sources with
  | nil => rfl
  | cons source sources ih =>
    rw [List.forall_mem_cons] at h
    unfold collectFrom
    rw [h.1, ih h.2]

theorem resolve_of_collectFrom {tree : FileTree} {destination : Option Location}
    {sources : List Path} {found : List SourceFile}
    (h : collectFrom tree destination sources = .ok found) :
    ∀ source ∈ sources, tree.resolve source = .ok (tree.place source) := by
  induction sources generalizing found with
  | nil => nofun
  | cons source sources ih =>
    obtain ⟨first, hfirst, h⟩ := bind_eq_ok_iff.1 h
    obtain ⟨others, hothers, -⟩ := bind_eq_ok_iff.1 h
    refine List.forall_mem_cons.2 ⟨?_, ih hothers⟩
    unfold filesOf at hfirst
    split at hfirst
    · nomatch hfirst
    · next location hresolve => rw [hresolve, FileTree.resolve_eq_ok hresolve]

/-- The files that are found do not depend on what stands below the destination, when the walks can
tell it and the sources can be reached. -/
theorem collect_again {other : FileTree} (hwell : tree.WellFormed) (hother : other.WellFormed)
    (hwd : other.workingDirectory = tree.workingDirectory) (hapart : p.Apart tree)
    (htells : p.Tells tree) (htells' : p.Tells other)
    (houtside : ∀ location,
      Location.isAtOrBelow (tree.place p.settings.destination) location = false →
        other.file? location = tree.file? location)
    (hreached : ∀ source ∈ p.settings.sources, other.exists? source = true)
    {found : List SourceFile} (h : p.collect tree = .ok found) : p.collect other = .ok found := by
  have hplace := FileTree.place_eq hwd
  have hapart' : p.Apart other := by
    intro source hsource
    rw [hplace, hplace]
    exact hapart source hsource
  rw [← h]
  refine collectFrom_congr fun source hsource => ?_
  unfold filesOf
  rw [FileTree.exists?_iff.1 (hreached source hsource), resolve_of_collectFrom h source hsource,
    hplace]
  dsimp only
  rw [FileTree.filesBelow_congr hwell hother fun entry content => ?_]
  rw [← FileTree.file?_eq_some_iff, ← FileTree.file?_eq_some_iff]
  by_cases hbelow : Location.isAtOrBelow (tree.place p.settings.destination) entry = true
  · -- neither walk comes to a file there
    constructor
    · rintro ⟨hfile, hwalked⟩
      have hout := isWalked_destination hwell hapart htells hsource hbelow (by rw [hfile]; rfl)
      rw [hwalked] at hout
      nomatch hout
    · rintro ⟨hfile, hwalked⟩
      have hout := isWalked_destination hother hapart' htells' hsource
        (by rw [hplace]; exact hbelow) (by rw [hfile]; rfl)
      rw [hplace, hwalked] at hout
      nomatch hout
  · rw [Bool.not_eq_true] at hbelow
    have hbelow' : Location.isAtOrBelow (other.place p.settings.destination) entry = false := by
      rw [hplace]
      exact hbelow
    rw [houtside entry hbelow, isWalked_outside hbelow, ← hplace source, isWalked_outside hbelow']

end Walks

end Preprocessor

end SourcePreprocessor
