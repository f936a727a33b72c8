import SourcePreprocessor.Proofs.File.Clearing

/-!
# Repeating changes

A run that is repeated makes the same changes to a tree in which their outcome already stands, as
far as it was not cleared. Such a tree lies between the one that was changed first and the one that
was left in the end (`Repeats`):

> `Repeats.makeDirectories`, `Repeats.write`, `Repeats.copy`: a change that succeeded first succeeds
> there too, and the trees that it leaves are such trees again;
> `Repeats.eq`: when everything has been repeated, the tree is the one that was left in the end.

What the changes have in common is that they only add to the tree, and only below one directory
(`Grown`).
-/

namespace SourcePreprocessor

namespace FileTree

/-! ## Larger trees -/

namespace Within

variable {tree other : FileTree} {path : Path}

theorem splitLast (h : tree.Within other) {directory : Location} {last : Text}
    (hsplit : tree.splitLast path = .ok (directory, last)) :
    other.splitLast path = .ok (directory, last) := by
  unfold FileTree.splitLast at hsplit ⊢
  split at hsplit
  · nomatch hsplit
  · exact hsplit
  · obtain ⟨reached, hfollow, hrest⟩ := bind_eq_ok_iff.1 hsplit
    rw [h.start, h.follow hfollow, ok_bind]
    split at hrest
    · next hnode =>
      rw [h.directory reached hnode]
      exact hrest
    · nomatch hrest
    · nomatch hrest

end Within

section Reading

variable {tree other : FileTree} {path : Path} {content : Content}

theorem read_eq_ok_iff : tree.read path = .ok content ↔
    tree.resolve path = .ok (tree.place path) ∧
      tree.file? (tree.place path) = some content := by
  constructor
  · intro h
    obtain ⟨location, hresolve, -⟩ := bind_eq_ok_iff.1 h
    obtain rfl := resolve_eq_ok hresolve
    exact ⟨hresolve, read_eq_ok h⟩
  · rintro ⟨hresolve, hfile⟩
    obtain ⟨node, hnode, hcontent⟩ := Option.bind_eq_some_iff.1 hfile
    refine bind_eq_ok_iff.2 ⟨_, hresolve, ?_⟩
    rw [hnode]
    cases node with
    | directory => nomatch hcontent
    | file held => exact congrArg Except.ok (Option.some.inj hcontent)

/-- What can be read is still read in a larger tree, where that holds the same. -/
theorem Within.read (h : tree.Within other) (hread : tree.read path = .ok content)
    (hsame : other.file? (tree.place path) = tree.file? (tree.place path)) :
    other.read path = .ok content := by
  obtain ⟨hresolve, hfile⟩ := read_eq_ok_iff.1 hread
  rw [read_eq_ok_iff, place_eq h.workingDirectory, hsame]
  exact ⟨h.resolve hresolve, hfile⟩

theorem readText_eq_ok_iff {t : Text} :
    tree.readText path = .ok t ↔ tree.read path = .ok (.text t) := by
  unfold readText
  cases tree.read path with
  | error fault => exact ⟨nofun, nofun⟩
  | ok content =>
    cases content with
    | text held =>
      exact ⟨fun h => congrArg _ (congrArg _ (Except.ok.inj h)),
        fun h => congrArg _ (Content.text.inj (Except.ok.inj h))⟩
    | bytes held => exact ⟨nofun, nofun⟩

theorem isDirectory_eq_false_of_read (h : tree.read path = .ok content) :
    tree.isDirectory path = false := by
  rw [Bool.eq_false_iff]
  intro hdirectory
  have hfile := (read_eq_ok_iff.1 h).2
  unfold file? at hfile
  rw [(resolve_of_isDirectory hdirectory).2] at hfile
  nomatch hfile

/-- A copy reads its source twice, before and after the target is emptied. -/
theorem copy_eq_ok_iff {source target : Path} {changed : FileTree} :
    tree.copy source target = .ok changed ↔
      ∃ held again emptied,
        tree.read source = .ok held ∧ tree.write target (.text []) = .ok emptied ∧
        emptied.read source = .ok again ∧ emptied.write target again = .ok changed := by
  constructor
  · intro h
    unfold copy at h
    split at h
    · nomatch h
    · obtain ⟨held, hread, h⟩ := bind_eq_ok_iff.1 h
      obtain ⟨emptied, hempty, h⟩ := bind_eq_ok_iff.1 h
      obtain ⟨again, hagain, hwrite⟩ := bind_eq_ok_iff.1 h
      exact ⟨held, again, emptied, hread, hempty, hagain, hwrite⟩
  · rintro ⟨held, again, emptied, hread, hempty, hagain, hwrite⟩
    unfold copy
    rw [isDirectory_eq_false_of_read hread, if_neg Bool.false_ne_true]
    refine bind_eq_ok_iff.2 ⟨held, hread, bind_eq_ok_iff.2 ⟨emptied, hempty, ?_⟩⟩
    exact bind_eq_ok_iff.2 ⟨again, hagain, hwrite⟩

end Reading

/-! ## Growth -/

/-- The second tree has everything that the first one has, and more only below a directory. -/
structure Grown (directory : Location) (tree grown : FileTree) : Prop where
  within : tree.Within grown
  outside : ∀ location, Location.isBelow directory location = false →
    grown.node? location = tree.node? location

namespace Grown

variable {directory : Location} {tree grown third : FileTree}

theorem refl (directory : Location) (tree : FileTree) : Grown directory tree tree :=
  ⟨.refl tree, fun _ _ => rfl⟩

theorem trans (h : Grown directory tree grown) (h' : Grown directory grown third) :
    Grown directory tree third :=
  ⟨h.within.trans h'.within, fun location hlocation =>
    (h'.outside location hlocation).trans (h.outside location hlocation)⟩

end Grown

section Growth

variable {directory : Location} {tree changed : FileTree} {path : Path} {content : Content}

/-- Directories that are made stand below the directory, or were there. -/
theorem grown_makeDirectories (hne : path.text ≠ [])
    (h : tree.makeDirectories path = (.ok (), changed))
    (hway : ∀ location ∈ tree.way path, Location.isBelow directory location = false →
      tree.node? location = some .directory) : Grown directory tree changed := by
  refine ⟨within_makeDirectories h, fun location hlocation => ?_⟩
  rw [(made_of_makeDirectories hne h).node?]
  split
  · next hpassed => exact (hway location hpassed hlocation).symm
  · rfl

/-- A write changes one location, at which no directory stands. -/
theorem write_eq_ok_insert (h : tree.write path content = .ok changed) :
    tree.place path ≠ [] ∧ tree.node? (tree.place path) ≠ some .directory ∧
      changed = tree.insert (tree.place path) (.file content) := by
  obtain ⟨parent, last, hsplit, hlast, -, hfree, rfl⟩ := write_eq_insert h
  rw [splitLast_eq_ok hsplit hlast]
  exact ⟨by simp, hfree, rfl⟩

theorem grown_write (hplace : Location.isBelow directory (tree.place path) = true)
    (h : tree.write path content = .ok changed) : Grown directory tree changed := by
  obtain ⟨hne, hfree, rfl⟩ := write_eq_ok_insert h
  have hnode := node?_insert tree hne (.file content)
  refine ⟨⟨rfl, fun location hdirectory => ?_, fun location hfile => ?_⟩,
    fun location hlocation => ?_⟩
  · rw [hnode, if_neg (by rintro rfl; exact hfree hdirectory), hdirectory]
  · rw [file?_insert_file tree hne]
    split
    · rfl
    · exact hfile
  · rw [hnode, if_neg (by rintro rfl; simp [hplace] at hlocation)]

theorem grown_copy {source target : Path}
    (hplace : Location.isBelow directory (tree.place target) = true)
    (h : tree.copy source target = .ok changed) : Grown directory tree changed := by
  obtain ⟨-, again, emptied, -, hempty, -, hwrite⟩ := copy_eq_ok_iff.1 h
  have hfirst := grown_write hplace hempty
  rw [← place_eq hfirst.within.workingDirectory] at hplace
  exact hfirst.trans (grown_write hplace hwrite)

end Growth

/-! ## Clearing -/

section Clearing

variable {tree first ready last : FileTree} {path : Path} (hne : path.text ≠ [])
  (hwell : tree.WellFormed) (hlast : last.WellFormed)
  (hgrown : Grown (tree.place path) ready last)

include hne hwell hlast hgrown

/-- A directory that was removed and made is removed and made again, with the same outcome. -/
theorem remake_of_removed (hremove : tree.removeDirectory path = (.ok (), first))
    (hmake : first.makeDirectories path = (.ok (), ready)) :
    ∃ removed, last.removeDirectory path = (.ok (), removed) ∧
      removed.makeDirectories path = (.ok (), ready) := by
  have hspec := made_of_makeDirectories hne hmake
  obtain ⟨hwd, hother, -⟩ := node?_removeDirectory hremove
  have hplace := place_eq hwd path
  obtain ⟨removed, hremoved, hnode⟩ := removeDirectory_again hremove
    (hgrown.within.workingDirectory.trans (hspec.workingDirectory.trans hwd))
    (hgrown.within.isDirectory hspec.isDirectory)
  rw [← hplace] at hother hgrown hnode
  refine ⟨removed, hremoved, makeDirectories_cleared hne (hwell.removed hremove) hlast hmake
    (fun location hbelow => ?_) hgrown.within.workingDirectory hgrown.outside hremoved
    fun hown => hnode.trans hown⟩
  rw [hother location, node?_emptied, if_pos hbelow]
  rintro rfl
  rw [Location.isBelow_self] at hbelow
  nomatch hbelow

/-- So is a directory that was made where nothing stood, if its path does not end in a dot. -/
theorem remake_of_new (hnone : tree.node? (tree.place path) = none) (hends : ¬EndsHere path)
    (hmake : tree.makeDirectories path = (.ok (), ready)) :
    ∃ removed, last.removeDirectory path = (.ok (), removed) ∧
      removed.makeDirectories path = (.ok (), ready) := by
  have hspec := made_of_makeDirectories hne hmake
  have hroot : last.place path ≠ [] := by
    rw [place_eq (hgrown.within.workingDirectory.trans hspec.workingDirectory)]
    intro hroot
    rw [hroot] at hnone
    nomatch hnone
  obtain ⟨removed, hremoved⟩ := exists_removeDirectory hlast
    (hgrown.within.isDirectory hspec.isDirectory) hroot hends
  refine ⟨removed, hremoved, makeDirectories_cleared hne hwell hlast hmake
    (fun location hbelow => ?_) hgrown.within.workingDirectory hgrown.outside hremoved
    fun hown => ?_⟩
  · obtain ⟨rest, hrest, rfl⟩ := Location.isBelow_iff.1 hbelow
    refine Option.eq_none_iff_forall_ne_some.2 fun node hnode => ?_
    rw [hwell.node?_of_below hrest hnode] at hnone
    nomatch hnone
  · rw [hnone] at hown
    nomatch hown

end Clearing

/-! ## Repetition -/

/-- A tree lies between the one that was changed first and the one that was left in the end. Each of
its locations is as in one of them, and files outside the directory are as they were at first. -/
structure Repeats (directory : Location) (last tree again : FileTree) : Prop where
  wellFormed : again.WellFormed
  within : tree.Within again
  bound : again.Within last
  outside : ∀ location, Location.isAtOrBelow directory location = false →
    again.file? location = tree.file? location
  node? : ∀ location, again.node? location = tree.node? location ∨
    again.node? location = last.node? location

namespace Repeats

variable {directory : Location} {last tree again changed : FileTree} {path : Path}
  {content : Content}

/-- The same tree once more, on the way to the last one. -/
theorem same (hwell : tree.WellFormed) (h : tree.Within last) :
    Repeats directory last tree tree :=
  ⟨hwell, .refl tree, h, fun _ _ => rfl, fun _ => .inl rfl⟩

/-- The last tree, instead of one from which it has grown. -/
theorem grown (hlast : last.WellFormed) (h : Grown directory tree last) :
    Repeats directory last tree last where
  wellFormed := hlast
  within := h.within
  bound := .refl last
  outside location hlocation := by
    unfold file?
    rw [h.outside location (Location.isBelow_eq_false_of_outside hlocation)]
  node? _ := .inr rfl

/-- When everything has been repeated, the tree is the last one. -/
theorem eq (h : Repeats directory last last again) (hlast : last.WellFormed) : again = last :=
  h.wellFormed.ext hlast h.within.workingDirectory fun location =>
    (h.node? location).elim id id

/-- A change that is made to both trees leads to such trees again. At each location it leaves the
same in both of them, or leaves both as they are. -/
theorem change (h : Repeats directory last tree again) {changed' : FileTree}
    (hwell : changed'.WellFormed) (hbound : changed.Within last)
    (hwd : changed'.workingDirectory = changed.workingDirectory)
    (hnode : ∀ location, changed'.node? location = changed.node? location ∨
      changed.node? location = tree.node? location ∧
        changed'.node? location = again.node? location) :
    Repeats directory last changed changed' := by
  have hfile : ∀ location, changed'.file? location = changed.file? location ∨
      changed.file? location = tree.file? location ∧
        changed'.file? location = again.file? location := by
    intro location
    unfold file?
    obtain hsame | ⟨hkept, hkept'⟩ := hnode location
    · exact .inl (by rw [hsame])
    · exact .inr ⟨by rw [hkept], by rw [hkept']⟩
  refine ⟨hwell, ⟨hwd, fun location hlocation => ?_, fun location hlocation => ?_⟩,
    ⟨hbound.workingDirectory.trans hwd.symm, fun location hlocation => ?_,
      fun location hlocation => ?_⟩, fun location hlocation => ?_, fun location => ?_⟩
  · obtain hsame | ⟨hkept, hkept'⟩ := hnode location
    · exact hsame.trans hlocation
    · exact hkept'.trans (h.within.directory location (hkept ▸ hlocation))
  · obtain hsame | ⟨hkept, hkept'⟩ := hfile location
    · rwa [hsame]
    · rw [hkept']
      exact h.within.file location (hkept ▸ hlocation)
  · obtain hsame | ⟨-, hkept'⟩ := hnode location
    · exact hbound.directory location (hsame ▸ hlocation)
    · exact h.bound.directory location (hkept' ▸ hlocation)
  · obtain hsame | ⟨-, hkept'⟩ := hfile location
    · exact hbound.file location (hsame ▸ hlocation)
    · exact h.bound.file location (hkept' ▸ hlocation)
  · obtain hsame | ⟨hkept, hkept'⟩ := hfile location
    · exact hsame
    · rw [hkept, hkept', h.outside location hlocation]
  · obtain hsame | ⟨hkept, hkept'⟩ := hnode location
    · exact .inl hsame
    · rw [hkept, hkept']
      exact h.node? location

theorem makeDirectories (h : Repeats directory last tree again) (hlast : last.WellFormed)
    (hmade : tree.makeDirectories path = (.ok (), changed)) (hbound : changed.Within last) :
    ∃ changed', again.makeDirectories path = (.ok (), changed') ∧
      Repeats directory last changed changed' := by
  by_cases hne : path.text = []
  · rw [makeDirectories_empty hne] at hmade ⊢
    obtain ⟨-, rfl⟩ := Prod.mk.inj hmade
    exact ⟨again, rfl, h⟩
  · have hspec := made_of_makeDirectories hne hmade
    obtain ⟨changed', hmade'⟩ := exists_makeDirectories h.wellFormed hlast h.bound
      (hbound.isDirectory hspec.isDirectory) (hspec.makeable.mono h.within)
    have hspec' := made_of_makeDirectories hne hmade'
    refine ⟨changed', hmade', h.change (h.wellFormed.made hmade') hbound ?_ fun location => ?_⟩
    · rw [hspec'.workingDirectory, h.within.workingDirectory, hspec.workingDirectory]
    · rw [hspec.node?, hspec'.node?, way_eq h.within.workingDirectory]
      split
      · exact .inl rfl
      · exact .inr ⟨rfl, rfl⟩

theorem write (h : Repeats directory last tree again)
    (hwrite : tree.write path content = .ok changed) (hbound : changed.Within last) :
    ∃ changed', again.write path content = .ok changed' ∧
      Repeats directory last changed changed' := by
  obtain ⟨parent, name, hsplit, hname, hslash, hfree, rfl⟩ := write_eq_insert hwrite
  have hne : parent ++ [name] ≠ [] := by simp
  -- a file stands there in the end, so no directory stands there now
  have hheld : (last.file? (parent ++ [name])).isSome = true :=
    hbound.file _ (by rw [file?_insert_file tree hne, if_pos rfl]; rfl)
  have hfree' : again.node? (parent ++ [name]) ≠ some .directory := by
    intro hdirectory
    unfold file? at hheld
    rw [h.bound.directory _ hdirectory] at hheld
    nomatch hheld
  have hwrite' : again.write path content =
      .ok (again.insert (parent ++ [name]) (.file content)) := by
    unfold FileTree.write
    rw [h.within.splitLast hsplit, ok_bind]
    dsimp only
    rw [hname, if_neg (by simpa using hslash)]
    split
    · next hdirectory => exact absurd hdirectory hfree'
    · rfl
  refine ⟨_, hwrite', h.change (wellFormed_write h.wellFormed hwrite') hbound
    h.within.workingDirectory fun location => ?_⟩
  rw [node?_insert again hne, node?_insert tree hne]
  split
  · exact .inl rfl
  · exact .inr ⟨rfl, rfl⟩

/-- A copy from outside the directory to below it. -/
theorem copy (h : Repeats directory last tree again) {source target : Path}
    (hsource : Location.isAtOrBelow directory (tree.place source) = false)
    (htarget : Location.isBelow directory (tree.place target) = true)
    (hcopy : tree.copy source target = .ok changed) (hbound : changed.Within last) :
    ∃ changed', again.copy source target = .ok changed' ∧
      Repeats directory last changed changed' := by
  obtain ⟨held, content, emptied, hread, hempty, hagain, hwrite⟩ := copy_eq_ok_iff.1 hcopy
  have hplace : emptied.place source = tree.place source :=
    place_eq (grown_write htarget hempty).within.workingDirectory source
  have hgrown : Grown directory emptied changed := by
    refine grown_write ?_ hwrite
    rwa [place_eq (grown_write htarget hempty).within.workingDirectory]
  obtain ⟨emptied', hempty', hmid⟩ := h.write hempty (hgrown.within.trans hbound)
  obtain ⟨changed', hwrite', hafter⟩ := hmid.write hwrite hbound
  have hread' := h.within.read hread (h.outside _ hsource)
  have hagain' := hmid.within.read hagain (hmid.outside _ (hplace ▸ hsource))
  exact ⟨changed', copy_eq_ok_iff.2 ⟨held, content, emptied', hread', hempty', hagain', hwrite'⟩,
    hafter⟩

end Repeats

end FileTree

end SourcePreprocessor
