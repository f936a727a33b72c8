import SourcePreprocessor.Proofs.File.Place

/-!
# What changes of a tree do to its files

Of a tree only its files matter to most statements, not the directories around them. `file?` is the
view of them, and there is one statement for each change:

> `file?_write`: writing a path puts the content at its place and changes no other file;
> `sameFiles_makeDirectories`: making directories changes no file, whether it succeeds or not;
> `file?_removeDirectory`: removing a directory takes away the files below its place and no others;
> `file?_copy`: copying puts the content of one place at another one.

For all of them the working directory stays, and so do the places of all paths. Of several writes
one after the other, the last one to a location counts (`file?_installAll`).
-/

namespace SourcePreprocessor

/-! ## The entries of a tree -/

theorem Location.compare_eq_eq_iff {l m : Location} : compare l m = .eq ↔ l = m := by
  induction l generalizing m with
  | nil => cases m <;> simp [compare]
  | cons a l ih =>
    cases m with
    | nil => simp [compare]
    | cons b m =>
      simp only [compare, Ordering.then_eq_eq, ih, Text.compare_eq_eq_iff, List.cons.injEq]

namespace FileTree

theorem lookup_cons_eq_ite {β : Type} (location key : Location) (value : β)
    (entries : List (Location × β)) :
    List.lookup location ((key, value) :: entries) =
      if location = key then some value else entries.lookup location := by
  rw [List.lookup_cons]
  by_cases h : location = key
  · rw [if_pos h, beq_iff_eq.2 h]
  · rw [if_neg h, beq_eq_false_iff_ne.2 h]

theorem lookup_insertEntry (location other : Location) (node : Node)
    (entries : List (Location × Node)) :
    (insertEntry location node entries).lookup other =
      if other = location then some node else entries.lookup other := by
  induction entries with
  | nil => exact lookup_cons_eq_ite other location node []
  | cons entry entries ih =>
    obtain ⟨key, old⟩ := entry
    unfold insertEntry
    split
    · exact lookup_cons_eq_ite other location node _
    · next heq =>
      -- the entry that was there has the same location
      obtain rfl := Location.compare_eq_eq_iff.1 heq
      rw [lookup_cons_eq_ite, lookup_cons_eq_ite]
      by_cases h : other = location
      · rw [if_pos h, if_pos h]
      · rw [if_neg h, if_neg h, if_neg h]
    · next hgt =>
      have hne : location ≠ key := by
        intro h
        rw [Location.compare_eq_eq_iff.2 h] at hgt
        nomatch hgt
      rw [lookup_cons_eq_ite, lookup_cons_eq_ite, ih]
      by_cases h : other = key
      · rw [if_pos h, if_pos h, if_neg (h ▸ hne.symm)]
      · rw [if_neg h, if_neg h]

theorem lookup_discard (p : Location → Bool) (entries : List (Location × Node))
    (location : Location) :
    (entries.filter fun entry => !p entry.1).lookup location =
      if p location then none else entries.lookup location := by
  induction entries with
  | nil => simp
  | cons entry entries ih =>
    obtain ⟨key, node⟩ := entry
    rw [lookup_cons_eq_ite]
    by_cases hkey : p key = true
    · rw [List.filter_cons_of_neg (by simpa using hkey), ih]
      by_cases h : location = key
      · rw [h, if_pos hkey, if_pos hkey]
      · rw [if_neg h]
    · rw [List.filter_cons_of_pos (by simpa using hkey), lookup_cons_eq_ite, ih]
      by_cases h : location = key
      · rw [if_pos h, if_pos h, h, if_neg hkey]
      · rw [if_neg h, if_neg h]

theorem node?_insert (tree : FileTree) {location : Location} (hne : location ≠ []) (node : Node)
    (other : Location) :
    (tree.insert location node).node? other =
      if other = location then some node else tree.node? other := by
  unfold node? insert
  cases other with
  | nil => rw [if_neg hne.symm]; rfl
  | cons name other => exact lookup_insertEntry location (name :: other) node tree.entries

/-! ## The files of a tree -/

end FileTree

/-- The content of a file. -/
def Node.content? : Node → Option Content
  | .directory => none
  | .file content => some content

namespace FileTree

/-- The content of the file at a location, if there is one. -/
def file? (tree : FileTree) (location : Location) : Option Content :=
  (tree.node? location).bind Node.content?

theorem file?_insert_file (tree : FileTree) {location : Location} (hne : location ≠ [])
    (content : Content) (other : Location) :
    (tree.insert location (.file content)).file? other =
      if other = location then some content else tree.file? other := by
  unfold file?
  rw [node?_insert tree hne]
  by_cases h : other = location
  · rw [if_pos h, if_pos h]
    rfl
  · rw [if_neg h, if_neg h]

theorem file?_discard (tree : FileTree) (p : Location → Bool) (location : Location) :
    (tree.discard p).file? location = if p location then none else tree.file? location := by
  cases location with
  | nil => by_cases h : p [] = true <;> simp [h, file?, node?, Node.content?]
  | cons name location =>
    show (List.lookup (name :: location) (tree.entries.filter fun entry => !p entry.1)).bind _ = _
    rw [lookup_discard]
    by_cases h : p (name :: location) = true <;> simp [h, file?, node?]

/-! ## Writes -/

/-- The content of the last write to a location. -/
def lastAt (writes : List (Location × Content)) (location : Location) : Option Content :=
  writes.reverse.lookup location

theorem lastAt_singleton (target : Location) (content : Content) (location : Location) :
    lastAt [(target, content)] location = if location = target then some content else none :=
  lookup_cons_eq_ite location target content []

theorem lastAt_append (writes others : List (Location × Content)) (location : Location) :
    lastAt (writes ++ others) location = (lastAt others location).or (lastAt writes location) := by
  unfold lastAt
  rw [List.reverse_append, List.lookup_append]

/-- Writes below a directory, given by the names that lead there. -/
def writesBelow (directory : Location) (writes : List (Location × Content)) :
    List (Location × Content) :=
  writes.map fun write => (directory ++ write.1, write.2)

theorem lastAt_writesBelow (directory : Location) (writes : List (Location × Content))
    (names : Location) :
    lastAt (writesBelow directory writes) (directory ++ names) = lastAt writes names := by
  unfold lastAt writesBelow
  rw [← List.map_reverse]
  induction writes.reverse with
  | nil => rfl
  | cons write writes ih =>
    rw [List.map_cons, lookup_cons_eq_ite, lookup_cons_eq_ite, ih]
    simp only [List.append_cancel_left_eq]

theorem lastAt_writesBelow_eq_none {directory location : Location}
    {writes : List (Location × Content)} (h : ∀ write ∈ writes, location ≠ directory ++ write.1) :
    lastAt (writesBelow directory writes) location = none := by
  refine List.lookup_eq_none_iff.2 fun write hwrite => ?_
  obtain ⟨own, hown, rfl⟩ := List.mem_map.1 (List.mem_reverse.1 hwrite)
  exact bne_iff_ne.2 (h own hown)

/-- As far as files go, the second tree is the first one after these writes: a location holds the
content of the last write to it, or what it held before. -/
structure Written (tree : FileTree) (writes : List (Location × Content)) (changed : FileTree) :
    Prop where
  workingDirectory : changed.workingDirectory = tree.workingDirectory
  file? : ∀ location, changed.file? location = (lastAt writes location).or (tree.file? location)

theorem Written.refl (tree : FileTree) : tree.Written [] tree := ⟨rfl, fun _ => rfl⟩

theorem Written.trans {tree made changed : FileTree} {writes others : List (Location × Content)}
    (h : tree.Written writes made) (h' : made.Written others changed) :
    tree.Written (writes ++ others) changed := by
  refine ⟨h'.workingDirectory.trans h.workingDirectory, fun location => ?_⟩
  rw [h'.file?, h.file?, lastAt_append, Option.or_assoc]

theorem read_eq_ok {tree : FileTree} {path : Path} {content : Content}
    (h : tree.read path = .ok content) : tree.file? (tree.place path) = some content := by
  obtain ⟨location, hresolve, hread⟩ := bind_eq_ok_iff.1 h
  obtain rfl := resolve_eq_ok hresolve
  unfold file?
  split at hread
  · next heq =>
    rw [heq]
    exact congrArg some (Except.ok.inj hread)
  · nomatch hread
  · nomatch hread

/-- A path that is empty or ends in a slash is not written to. -/
theorem write_eq_ok {tree changed : FileTree} {path : Path} {content : Content}
    (h : tree.write path content = .ok changed) :
    path.text ≠ [] ∧ path.text.getLast? ≠ some '/' := by
  obtain ⟨⟨directory, last⟩, hsplit, hwrite⟩ := bind_eq_ok_iff.1 h
  constructor
  · intro hempty
    obtain ⟨text⟩ := path
    subst hempty
    nomatch hsplit
  · dsimp only at hwrite
    split at hwrite
    · nomatch hwrite
    · next hlast =>
      rw [Bool.or_eq_true, decide_eq_true_eq, not_or] at hlast
      exact hlast.1

/-- A directory is not written to under the empty name. -/
theorem ne_nil_of_write_join {tree changed : FileTree} {directory : Path} {name : Text}
    {content : Content} (h : tree.write (directory.join ⟨name⟩) content = .ok changed) :
    name ≠ [] := by
  rintro rfl
  obtain ⟨hne, hends⟩ := write_eq_ok h
  unfold Path.join at hne hends
  rw [if_neg (by decide)] at hne hends
  split at hends
  · next hcases =>
    rw [if_pos hcases] at hne
    dsimp only at hne hends
    rw [List.append_nil] at hne hends
    simp [hne, hends] at hcases
  · exact hends List.getLast?_concat

/-- A write puts the content at the place of the path and changes no other file. -/
theorem written_write {tree changed : FileTree} {path : Path} {content : Content}
    (h : tree.write path content = .ok changed) :
    tree.Written [(tree.place path, content)] changed := by
  obtain ⟨⟨directory, last⟩, hsplit, hwrite⟩ := bind_eq_ok_iff.1 h
  dsimp only at hwrite
  split at hwrite
  · nomatch hwrite
  · next hlast =>
    rw [Bool.or_eq_true, not_or, Bool.not_eq_true', Bool.not_eq_false] at hlast
    rw [splitLast_eq_ok hsplit hlast.2]
    split at hwrite
    · nomatch hwrite
    · obtain rfl := Except.ok.inj hwrite
      refine ⟨rfl, fun location => ?_⟩
      rw [file?_insert_file tree (by simp), lastAt_singleton]
      by_cases hl : location = directory ++ [last]
      · rw [if_pos hl, if_pos hl]
        rfl
      · rw [if_neg hl, if_neg hl]
        rfl

/-- A copy puts the content of one place at another one and changes no other file. -/
theorem written_copy {tree changed : FileTree} {source target : Path}
    (h : tree.copy source target = .ok changed) (hne : tree.place source ≠ tree.place target) :
    ∃ content, tree.read source = .ok content ∧
      tree.Written [(tree.place target, content)] changed := by
  unfold copy at h
  split at h
  · nomatch h
  · obtain ⟨content, hread, h⟩ := bind_eq_ok_iff.1 h
    obtain ⟨emptied, hempty, h⟩ := bind_eq_ok_iff.1 h
    obtain ⟨again, hagain, hwrite⟩ := bind_eq_ok_iff.1 h
    have hfirst := written_write hempty
    have hsecond := written_write hwrite
    -- the target is emptied first, which leaves the source as it is
    have hsame : again = content := by
      have hcontent := read_eq_ok hagain
      rw [place_eq hfirst.workingDirectory, hfirst.file?, lastAt_singleton, if_neg hne,
        Option.none_or, read_eq_ok hread] at hcontent
      exact (Option.some.inj hcontent).symm
    rw [place_eq hfirst.workingDirectory, hsame] at hsecond
    refine ⟨content, hread, hsecond.workingDirectory.trans hfirst.workingDirectory, ?_⟩
    intro location
    rw [hsecond.file?, hfirst.file?, lastAt_singleton, lastAt_singleton]
    by_cases hl : location = tree.place target
    · rw [if_pos hl]
      rfl
    · rw [if_neg hl, if_neg hl]
      rfl

theorem ne_nil_of_copy_join {tree changed : FileTree} {source directory : Path} {name : Text}
    (h : tree.copy source (directory.join ⟨name⟩) = .ok changed) : name ≠ [] := by
  unfold copy at h
  split at h
  · nomatch h
  · obtain ⟨_, -, h⟩ := bind_eq_ok_iff.1 h
    obtain ⟨emptied, hempty, -⟩ := bind_eq_ok_iff.1 h
    exact ne_nil_of_write_join hempty

/-! ## Directories -/

/-- A directory is made only where nothing is. -/
theorem written_makeDirectory {tree changed : FileTree} {path : Path}
    (h : tree.makeDirectory path = .ok changed) : tree.Written [] changed := by
  obtain ⟨⟨directory, last⟩, -, hmake⟩ := bind_eq_ok_iff.1 h
  dsimp only at hmake
  split at hmake
  · next hfree =>
    rw [Bool.and_eq_true, Option.isNone_iff_eq_none] at hfree
    obtain rfl := Except.ok.inj hmake
    refine ⟨rfl, fun location => ?_⟩
    unfold FileTree.file?
    rw [node?_insert tree (by simp)]
    by_cases hl : location = directory ++ [last]
    · rw [if_pos hl, hl, hfree.2]
      rfl
    · rw [if_neg hl]
      rfl
  · nomatch hmake

theorem written_ensureDirectory (tree : FileTree) (path : Path) :
    tree.Written [] (tree.ensureDirectory path).2 := by
  unfold ensureDirectory
  split
  · next hmake => exact written_makeDirectory hmake
  · split <;> exact .refl tree

theorem written_makeDirectoriesUpTo (bound : Nat) (tree : FileTree) (path : Path) :
    tree.Written [] (makeDirectoriesUpTo bound tree path).2 := by
  induction bound generalizing path with
  | zero => exact .refl tree
  | succ bound ih =>
    unfold makeDirectoriesUpTo
    split
    · exact .refl tree
    · split
      · next parent _ _ =>
        have hparent := ih parent
        split
        · next made hmade =>
          rw [hmade] at hparent
          exact hparent.trans (written_ensureDirectory made path)
        · exact hparent
      · exact written_ensureDirectory tree path

/-- Making directories changes no file, whether it succeeds or not. -/
theorem written_makeDirectories (tree : FileTree) (path : Path) :
    tree.Written [] (tree.makeDirectories path).2 :=
  written_makeDirectoriesUpTo _ tree path

/-! ## Several files -/

theorem settle_eq_ok_iff {tree changed : FileTree} {result : Except FileFault FileTree} :
    tree.settle result = (.ok (), changed) ↔ result = .ok changed := by
  cases result with
  | error fault => exact ⟨nofun, nofun⟩
  | ok made => exact ⟨fun h => congrArg _ (Prod.mk.inj h).2, fun h => Except.ok.inj h ▸ rfl⟩

/-- A file is installed by writing it to a tree in which at most directories were made. -/
theorem install_eq_ok {tree changed : FileTree} {path : Path} {content : Content}
    (h : tree.install path content = (.ok (), changed)) :
    ∃ made, tree.Written [] made ∧ made.write path content = .ok changed := by
  unfold install at h
  split at h
  · exact ⟨tree, .refl tree, settle_eq_ok_iff.1 h⟩
  · next parent _ =>
    have hmade := written_makeDirectories tree parent
    split at h
    · next made heq =>
      rw [heq] at hmade
      exact ⟨made, hmade, settle_eq_ok_iff.1 h⟩
    · next hfailed => exact absurd h (hfailed changed)

theorem written_install {tree changed : FileTree} {path : Path} {content : Content}
    (h : tree.install path content = (.ok (), changed)) :
    tree.Written [(tree.place path, content)] changed := by
  obtain ⟨made, hmade, hwrite⟩ := install_eq_ok h
  rw [← place_eq hmade.workingDirectory]
  exact hmade.trans (written_write hwrite)

/-- Installs files one after the other, up to the first that cannot be installed. -/
def installAll : FileTree → List (Path × Content) → Outcome
  | tree, [] => (.ok (), tree)
  | tree, (path, content) :: files =>
    match tree.install path content with
    | (.ok (), changed) => changed.installAll files
    | failed => failed

theorem installAll_cons {tree made : FileTree} {path : Path} {content : Content}
    (h : tree.install path content = (.ok (), made)) (files : List (Path × Content)) :
    tree.installAll ((path, content) :: files) = made.installAll files := by
  rw [installAll, h]

/-- Of the files that are installed, the last one at each place counts. -/
theorem written_installAll {files : List (Path × Content)} :
    ∀ {tree changed : FileTree}, tree.installAll files = (.ok (), changed) →
      tree.Written (files.map fun file => (tree.place file.1, file.2)) changed := by
  induction files with
  | nil =>
    intro tree changed h
    obtain ⟨-, rfl⟩ := Prod.mk.inj h
    exact .refl tree
  | cons file files ih =>
    intro tree changed h
    obtain ⟨path, content⟩ := file
    unfold installAll at h
    split at h
    · next made hmade =>
      have hfirst := written_install hmade
      have hothers := ih h
      simp only [place_eq hfirst.workingDirectory] at hothers
      exact hfirst.trans hothers
    · next hfailed => exact absurd h (hfailed changed)

theorem install_of_installAll {files : List (Path × Content)} :
    ∀ {tree changed : FileTree}, tree.installAll files = (.ok (), changed) →
      ∀ file ∈ files, ∃ before after : FileTree,
        before.install file.1 file.2 = (.ok (), after) := by
  induction files with
  | nil => exact fun _ _ => nofun
  | cons first files ih =>
    intro tree changed h file hfile
    unfold installAll at h
    split at h
    · next made hmade =>
      obtain rfl | hfile := List.mem_cons.1 hfile
      · exact ⟨tree, made, hmade⟩
      · exact ih h file hfile
    · next hfailed => exact absurd h (hfailed changed)

/-! ## Removing -/

/-- Removing a directory takes away the files below its place and no others. -/
theorem file?_removeDirectory {tree changed : FileTree} {path : Path}
    (h : tree.removeDirectory path = (.ok (), changed)) :
    changed.workingDirectory = tree.workingDirectory ∧ tree.file? (tree.place path) = none ∧
      ∀ location, changed.file? location =
        if Location.isAtOrBelow (tree.place path) location then none else tree.file? location := by
  unfold removeDirectory at h
  split at h
  · nomatch h
  · next found hresolve =>
    obtain rfl := resolve_eq_ok hresolve
    split at h
    · next hdirectory =>
      have hplace : tree.file? (tree.place path) = none := by
        rw [file?, hdirectory]
        rfl
      -- whether the directory itself stays makes no difference to the files
      have hcleared : ∀ location, (tree.discard fun entry =>
          Location.isAtOrBelow (tree.place path) entry && entry ≠ tree.place path).file? location =
            if Location.isAtOrBelow (tree.place path) location then none
            else tree.file? location := by
        intro location
        rw [file?_discard]
        by_cases hl : location = tree.place path
        · rw [hl, hplace]
          simp
        · simp [hl]
      dsimp only at h
      split at h
      · obtain ⟨-, rfl⟩ := Prod.mk.inj h
        exact ⟨rfl, hplace, hcleared⟩
      · nomatch h
      · nomatch h
      · nomatch h
      · obtain ⟨-, rfl⟩ := Prod.mk.inj h
        refine ⟨rfl, hplace, fun location => ?_⟩
        rw [file?_discard, hcleared]
        by_cases hl : location = tree.place path
        · rw [hl, hplace]
          simp
        · simp [hl]
    · nomatch h

end FileTree

end SourcePreprocessor
