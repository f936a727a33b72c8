import SourcePreprocessor.Proofs.File.Making

/-!
# Clearing a directory again

A directory that is removed and made again stands there empty, but its path is followed three times
on the way, and each time through other directories. So whether it works depends on more than the
directory itself, and a second time on what the first time left:

> `removeDirectory_again`: a directory that could be removed can be removed once more, when its path
> leads to a directory again;
> `exists_removeDirectory`: so can one that is not the root, when its path does not end in a dot;
> `makeDirectories_cleared`: when it is then made again, the tree is as it was before anything was
> put in it.
-/

namespace SourcePreprocessor

/-! ## Below a directory -/

namespace Location

/-- Whether a location is below a directory, and not the directory itself. -/
def isBelow (directory location : Location) : Bool :=
  isAtOrBelow directory location && location ≠ directory

theorem isBelow_iff {directory location : Location} :
    isBelow directory location = true ↔ ∃ names, names ≠ [] ∧ location = directory ++ names := by
  unfold isBelow
  rw [Bool.and_eq_true, isAtOrBelow_iff, decide_eq_true_eq]
  constructor
  · rintro ⟨⟨names, rfl⟩, hne⟩
    exact ⟨names, fun hnil => hne (by rw [hnil, List.append_nil]), rfl⟩
  · rintro ⟨names, hne, rfl⟩
    exact ⟨⟨names, rfl⟩, by simpa using hne⟩

theorem isBelow_self (directory : Location) : isBelow directory directory = false := by
  simp [isBelow]

theorem isBelow_eq_false_of_outside {directory location : Location}
    (h : isAtOrBelow directory location = false) : isBelow directory location = false := by
  unfold isBelow
  rw [h, Bool.false_and]

end Location

namespace FileTree

/-! ## Paths in trees that agree along their way -/

section Congruence

variable {tree other : FileTree}

theorem step_congr {location : Location} {piece : Text}
    (h : other.node? location = tree.node? location)
    (hnext : other.node? (location.advance piece) = tree.node? (location.advance piece)) :
    other.step location piece = tree.step location piece := by
  unfold step
  rw [h]
  cases tree.node? location with
  | none => rfl
  | some node =>
    cases node with
    | file content => rfl
    | directory =>
      dsimp only
      unfold Location.advance at hnext
      by_cases hidle : Path.isIdle piece = true
      · rw [if_pos hidle, if_pos hidle]
      · rw [if_neg hidle] at hnext
        rw [if_neg hidle, if_neg hidle]
        by_cases hup : piece = ['.', '.']
        · rw [if_pos hup, if_pos hup]
        · rw [if_neg hup] at hnext
          rw [if_neg hup, if_neg hup, hnext]

/-- Pieces are followed alike in trees that agree on all they come to. -/
theorem follow_congr {location : Location} {pieces : List Text}
    (h : ∀ passed ∈ pieces.scanl Location.advance location,
      other.node? passed = tree.node? passed) :
    other.follow location pieces = tree.follow location pieces := by
  induction pieces generalizing location with
  | nil => rfl
  | cons piece pieces ih =>
    rw [List.scanl_cons, List.forall_mem_cons] at h
    show (other.step location piece >>= _) = (tree.step location piece >>= _)
    rw [step_congr h.1 (h.2 _ (mem_scanl_start _ _))]
    match hstep : tree.step location piece with
    | .error fault => rfl
    | .ok next =>
      obtain rfl := step_eq_ok hstep
      exact ih h.2

variable {path : Path} (hwd : other.workingDirectory = tree.workingDirectory)
  (h : ∀ location ∈ tree.way path, other.node? location = tree.node? location)

include hwd h

/-- A path leads to the same in trees that agree along its way. -/
theorem resolve_congr : other.resolve path = tree.resolve path := by
  have hstart : other.start path = tree.start path := by
    unfold start
    rw [hwd]
  unfold resolve
  rw [hstart, follow_congr fun passed hpassed => h passed ?_]
  exact mem_scanl_filter.2 hpassed

omit hwd h in
/-- The pieces before the last one lead along the way. -/
theorem mem_way_of_before {last : Text} {before : List Text}
    (hlast : (rawPieces path).reverse.dropWhile List.isEmpty = last :: before) {passed : Location}
    (hpassed : passed ∈ before.reverse.scanl Location.advance (tree.start path)) :
    passed ∈ tree.way path := by
  unfold way
  rw [strides_of_last hlast, mem_scanl_filter, mem_scanl_concat]
  exact .inl hpassed

theorem splitLast_congr : other.splitLast path = tree.splitLast path := by
  have hstart : other.start path = tree.start path := by
    unfold start
    rw [hwd]
  unfold splitLast
  match pathFault? path with
  | some fault => rfl
  | none =>
    match hlast : (rawPieces path).reverse.dropWhile List.isEmpty with
    | [] => rfl
    | last :: before =>
      dsimp only
      have hsame := fun passed hpassed => h passed (mem_way_of_before hlast hpassed)
      rw [hstart, follow_congr hsame]
      match hfollow : tree.follow (tree.start path) before.reverse with
      | .error fault => rfl
      | .ok directory =>
        rw [ok_bind, ok_bind, hsame directory (follow_eq_ok hfollow ▸ foldl_mem_scanl _ _)]

end Congruence

/-! ## Empty directories -/

/-- The tree without what is below a location. -/
def emptied (tree : FileTree) (directory : Location) : FileTree :=
  tree.discard (Location.isBelow directory)

section Emptied

variable {tree : FileTree} {directory location : Location}

theorem node?_emptied (tree : FileTree) (directory location : Location) :
    (tree.emptied directory).node? location =
      if Location.isBelow directory location then none else tree.node? location := by
  by_cases hne : location = []
  · obtain rfl := hne
    cases directory <;> rfl
  · exact node?_discard tree _ hne

theorem Within.of_node? {other : FileTree} (hwd : other.workingDirectory = tree.workingDirectory)
    (h : ∀ location node, tree.node? location = some node → other.node? location = some node) :
    tree.Within other := by
  refine ⟨hwd, fun location hnode => h location _ hnode, fun location hfile => ?_⟩
  obtain ⟨content, hnode⟩ := isSome_file?_iff.1 hfile
  exact isSome_file?_iff.2 ⟨content, h location _ hnode⟩

theorem within_emptied (tree : FileTree) (directory : Location) :
    (tree.emptied directory).Within tree := by
  refine .of_node? rfl fun location node hnode => ?_
  rw [node?_emptied] at hnode
  split at hnode
  · nomatch hnode
  · exact hnode

end Emptied

/-! ## Removing -/

section Removing

variable {tree other removed : FileTree} {path : Path}

theorem resolve_of_isDirectory (h : tree.isDirectory path = true) :
    tree.resolve path = .ok (tree.place path) ∧
      tree.node? (tree.place path) = some .directory := by
  obtain ⟨found, hfound, hnode⟩ := (Option.any_eq_true _ _).1 h
  obtain rfl := locate?_eq_some hfound
  exact ⟨eq_ok_of_toOption hfound, of_decide_eq_true hnode⟩

theorem isDirectory_of_resolve (h : tree.resolve path = .ok (tree.place path))
    (hnode : tree.node? (tree.place path) = some .directory) : tree.isDirectory path = true := by
  unfold isDirectory locate?
  rw [h]
  exact decide_eq_true hnode

/-- A directory is emptied first. What comes then is up to the path, as it can be followed now. -/
theorem removeDirectory_eq (h : tree.isDirectory path = true) :
    tree.removeDirectory path =
      match (tree.emptied (tree.place path)).splitLast path with
      | .error .notFound => (.ok (), tree.emptied (tree.place path))
      | .error fault => (.error fault, tree.emptied (tree.place path))
      | .ok (_, ['.']) => (.error .invalidArgument, tree.emptied (tree.place path))
      | .ok (_, ['.', '.']) => (.error .notEmpty, tree.emptied (tree.place path))
      | .ok _ => (.ok (), (tree.emptied (tree.place path)).discard (· = tree.place path)) := by
  obtain ⟨hresolve, hnode⟩ := resolve_of_isDirectory h
  unfold removeDirectory
  rw [hresolve]
  exact if_pos hnode

/-- The directory was removed with all that is below it, or only what is below it. -/
theorem removeDirectory_eq_ok (h : tree.removeDirectory path = (.ok (), removed)) :
    tree.isDirectory path = true ∧
      (((tree.emptied (tree.place path)).splitLast path = .error .notFound ∧
          removed = tree.emptied (tree.place path)) ∨
        ∃ directory last, (tree.emptied (tree.place path)).splitLast path = .ok (directory, last) ∧
          last ≠ ['.'] ∧ last ≠ ['.', '.'] ∧
          removed = (tree.emptied (tree.place path)).discard (· = tree.place path)) := by
  have hdirectory : tree.isDirectory path = true := by
    unfold removeDirectory at h
    split at h
    · nomatch h
    · next found hresolve =>
      obtain rfl := resolve_eq_ok hresolve
      split at h
      · next hnode => exact isDirectory_of_resolve hresolve hnode
      · nomatch h
  refine ⟨hdirectory, ?_⟩
  rw [removeDirectory_eq hdirectory] at h
  split at h
  · next hsplit => exact .inl ⟨hsplit, (Prod.mk.inj h).2.symm⟩
  · nomatch h
  · nomatch h
  · nomatch h
  · next found hdot hup hsplit =>
    obtain ⟨directory, last⟩ := found
    refine .inr ⟨directory, last, hsplit, ?_, ?_, (Prod.mk.inj h).2.symm⟩
    · rintro rfl
      exact hdot directory rfl
    · rintro rfl
      exact hup directory rfl

theorem isDirectory_of_removeDirectory (h : tree.removeDirectory path = (.ok (), removed)) :
    tree.isDirectory path = true := (removeDirectory_eq_ok h).1

/-- Only the directory itself and what is below it can be lost. -/
theorem node?_removeDirectory (h : tree.removeDirectory path = (.ok (), removed)) :
    removed.workingDirectory = tree.workingDirectory ∧
    (∀ location, location ≠ tree.place path →
      removed.node? location = (tree.emptied (tree.place path)).node? location) ∧
    (removed.node? (tree.place path) = some .directory ∨
      removed.node? (tree.place path) = none) := by
  obtain ⟨hdirectory, ⟨-, rfl⟩ | ⟨directory, last, -, -, -, rfl⟩⟩ := removeDirectory_eq_ok h
  · refine ⟨rfl, fun _ _ => rfl, .inl ?_⟩
    rw [node?_emptied, Location.isBelow_self, if_neg Bool.false_ne_true]
    exact (resolve_of_isDirectory hdirectory).2
  · refine ⟨rfl, fun location hne => ?_, ?_⟩
    · by_cases hroot : location = []
      · rw [hroot]
        rfl
      · rw [node?_discard _ _ hroot, if_neg (by simpa using hne)]
    · by_cases hroot : tree.place path = []
      · rw [hroot]
        exact .inl rfl
      · rw [node?_discard _ _ hroot, if_pos (by simp)]
        exact .inr rfl

/-- A directory that could be removed can be removed again, and itself stays or goes as before, when
its path leads to a directory again. -/
theorem removeDirectory_again (h : tree.removeDirectory path = (.ok (), removed))
    (hwd : other.workingDirectory = tree.workingDirectory)
    (hdirectory : other.isDirectory path = true) :
    ∃ again, other.removeDirectory path = (.ok (), again) ∧
      again.node? (tree.place path) = removed.node? (tree.place path) := by
  obtain ⟨hfirst, hcases⟩ := removeDirectory_eq_ok h
  have hplace := place_eq hwd path
  have hway := (isDirectory_iff.1 hdirectory).2
  rw [way_eq hwd] at hway
  have hsplit : (other.emptied (tree.place path)).splitLast path =
      (tree.emptied (tree.place path)).splitLast path := by
    refine splitLast_congr hwd fun location hlocation => ?_
    rw [node?_emptied, node?_emptied, hway location hlocation,
      (isDirectory_iff.1 hfirst).2 location hlocation]
  have hnode : (other.emptied (tree.place path)).node? (tree.place path) =
      (tree.emptied (tree.place path)).node? (tree.place path) := by
    rw [node?_emptied, node?_emptied, hway _ (place_mem_way tree path),
      (resolve_of_isDirectory hfirst).2]
  rw [removeDirectory_eq hdirectory, hplace, hsplit]
  obtain ⟨hgone, rfl⟩ | ⟨directory, last, hlast, hdot, hup, rfl⟩ := hcases
  · rw [hgone]
    exact ⟨_, rfl, hnode⟩
  · rw [hlast]
    refine ⟨(other.emptied (tree.place path)).discard (· = tree.place path), ?_, ?_⟩
    · split <;> simp_all
    · by_cases hroot : tree.place path = []
      · rw [hroot]
        rfl
      · rw [node?_discard _ _ hroot, node?_discard _ _ hroot, hnode]

/-- The directory emptied, its path still leads to it from the directory before, or it can no longer
be followed that far. -/
theorem splitLast_emptied (hwell : tree.WellFormed) (hdirectory : tree.isDirectory path = true)
    {last : Text} {before : List Text}
    (hlast : (rawPieces path).reverse.dropWhile List.isEmpty = last :: before) :
    (∃ reached, (tree.emptied (tree.place path)).splitLast path = .ok (reached, last) ∧
      reached = before.reverse.foldl Location.advance (tree.start path) ∧
      (tree.emptied (tree.place path)).node? reached = some .directory) ∨
    (tree.emptied (tree.place path)).splitLast path = .error .notFound := by
  have hfault := (isDirectory_iff.1 hdirectory).1
  have hwithin := within_emptied tree (tree.place path)
  obtain ⟨hway, hnext⟩ := node?_of_last hdirectory hlast rfl
  obtain hbefore | hmissing := follow_within hwell hwithin hway
  · obtain ⟨reached, hfollow, hnode⟩ := follow_directory_iff.2 hbefore
    have hshort := isTooLong_of_advance hwell (follow_eq_ok hfollow ▸ hnext)
    exact .inl ⟨reached, splitLast_of_follow hfault hlast hfollow hnode hshort,
      follow_eq_ok hfollow, hnode⟩
  · exact .inr (splitLast_of_missing hfault hlast hmissing)

/-- Of an emptied directory the path does not come up from what is below it. -/
theorem ne_up_of_emptied (hroot : tree.place path ≠ []) {last : Text} {before : List Text}
    (hlast : (rawPieces path).reverse.dropWhile List.isEmpty = last :: before)
    (hnode : (tree.emptied (tree.place path)).node?
      (before.reverse.foldl Location.advance (tree.start path)) = some .directory) :
    last ≠ ['.', '.'] := by
  rintro rfl
  generalize hreached : before.reverse.foldl Location.advance (tree.start path) = reached at hnode
  have hplace : tree.place path = reached.dropLast := by
    rw [place_eq_strides, strides_of_last hlast, foldl_filter_idle, List.foldl_append, hreached]
    rfl
  rw [node?_emptied] at hnode
  split at hnode
  · nomatch hnode
  · next habove =>
    refine habove (Location.isBelow_iff.2 ?_)
    obtain hnil | ⟨directory, name, hconcat⟩ := List.eq_nil_or_concat reached
    · rw [hplace, hnil] at hroot
      exact absurd rfl hroot
    · rw [hplace, hconcat, List.concat_eq_append, List.dropLast_concat]
      exact ⟨[name], List.cons_ne_nil _ _, rfl⟩

/-- A directory can be removed, if it is not the root and its path does not end in a dot: either the
path can still be followed when the directory is empty, or something that it goes through is
gone. -/
theorem exists_removeDirectory (hwell : tree.WellFormed) (hdirectory : tree.isDirectory path = true)
    (hroot : tree.place path ≠ []) (hends : ¬EndsHere path) :
    ∃ removed, tree.removeDirectory path = (.ok (), removed) := by
  have hfault := (isDirectory_iff.1 hdirectory).1
  rw [removeDirectory_eq hdirectory]
  match hlast : (rawPieces path).reverse.dropWhile List.isEmpty with
  | [] =>
    obtain ⟨hstart, hstrides⟩ := start_of_empty tree hfault hlast
    rw [place_eq_strides, hstart, hstrides] at hroot
    exact absurd rfl hroot
  | last :: before =>
    obtain ⟨reached, hsplit, rfl, hnode⟩ | hsplit := splitLast_emptied hwell hdirectory hlast
    · have hup := ne_up_of_emptied hroot hlast hnode
      have hdot : last ≠ ['.'] := by
        rintro rfl
        exact hends ⟨before, hlast⟩
      rw [hsplit]
      split <;> simp_all
    · rw [hsplit]
      exact ⟨_, rfl⟩

end Removing

/-! ## Making again -/

/-- A tree in which a directory was made, and one from which it is removed now. Apart from the
directory, what is left is what stood there when it was made. -/
structure Restored (first ready removed : FileTree) (directory : Location) : Prop where
  workingDirectory : removed.workingDirectory = first.workingDirectory
  made : ready.node? directory = some .directory
  empty : ∀ location, Location.isBelow directory location = true → first.node? location = none
  own : removed.node? directory = some .directory ∨ removed.node? directory = none
  stays : first.node? directory = some .directory → removed.node? directory = some .directory
  left : ∀ location, location ≠ directory → removed.node? location =
    if Location.isBelow directory location then none else ready.node? location

namespace Restored

variable {first ready removed : FileTree} {directory : Location}
  (h : Restored first ready removed directory)

include h

theorem within_ready (hwd : ready.workingDirectory = first.workingDirectory) :
    removed.Within ready := by
  refine .of_node? (hwd.trans h.workingDirectory.symm) fun location node hnode => ?_
  by_cases hlocation : location = directory
  · subst hlocation
    obtain hown | hown := h.own <;> rw [hown] at hnode
    · rw [h.made, ← hnode]
    · nomatch hnode
  · rw [h.left location hlocation] at hnode
    split at hnode
    · nomatch hnode
    · exact hnode

theorem within_first
    (hkept : ∀ location node, first.node? location = some node → ready.node? location = some node) :
    first.Within removed := by
  refine .of_node? h.workingDirectory fun location node hnode => ?_
  by_cases hlocation : location = directory
  · subst hlocation
    obtain rfl := Option.some.inj (h.made.symm.trans (hkept _ _ hnode))
    exact h.stays hnode
  · rw [h.left location hlocation]
    split
    · next hbelow =>
      rw [h.empty location hbelow] at hnode
      nomatch hnode
    · exact hkept location node hnode

end Restored

/-- When the directory is made again, the tree is as it was before it was removed. -/
theorem Restored.remade {first ready removed again : FileTree} {path : Path}
    (h : Restored first ready removed (first.place path)) (hspec : first.Made path ready)
    (hspec' : removed.Made path again) (hready : ready.WellFormed) (hagain : again.WellFormed) :
    again = ready := by
  refine hagain.ext hready ?_ fun location => ?_
  · rw [hspec'.workingDirectory, h.workingDirectory, hspec.workingDirectory]
  · rw [hspec'.node?, hspec.node?, way_eq h.workingDirectory]
    split
    · rfl
    · next hmissed =>
      have hlocation : location ≠ first.place path := by
        rintro rfl
        exact hmissed (place_mem_way first path)
      rw [h.left location hlocation, hspec.node?, if_neg hmissed]
      split
      · next hbelow => exact (h.empty location hbelow).symm
      · rfl

/-- Nothing that stands there is changed when directories are made. -/
theorem node?_makeDirectories {tree made : FileTree} {path : Path} (hne : path.text ≠ [])
    (h : tree.makeDirectories path = (.ok (), made)) {location : Location} {node : Node}
    (hnode : tree.node? location = some node) : made.node? location = some node := by
  have hspec := made_of_makeDirectories hne h
  by_cases hway : location ∈ tree.way path
  · have hdirectory : made.node? location = some .directory := by rw [hspec.node?, if_pos hway]
    obtain hsame | hnone := (within_makeDirectories h).directory_or_none hdirectory
    · rw [hdirectory, ← hsame, hnode]
    · rw [hnone] at hnode
      nomatch hnode
  · rw [hspec.node?, if_neg hway, hnode]

/-- A directory that was empty when it was made is as it was then, when it is removed and made
again. What was put in it does not matter, as long as nothing else has changed. -/
theorem makeDirectories_cleared {first ready last removed : FileTree} {path : Path}
    (hne : path.text ≠ []) (hfirst : first.WellFormed) (hlast : last.WellFormed)
    (hmade : first.makeDirectories path = (.ok (), ready))
    (hempty : ∀ location, Location.isBelow (first.place path) location = true →
      first.node? location = none)
    (hwd : last.workingDirectory = ready.workingDirectory)
    (hsame : ∀ location, Location.isBelow (first.place path) location = false →
      last.node? location = ready.node? location)
    (hremoved : last.removeDirectory path = (.ok (), removed))
    (hstays : first.node? (first.place path) = some .directory →
      removed.node? (first.place path) = some .directory) :
    removed.makeDirectories path = (.ok (), ready) := by
  have hspec := made_of_makeDirectories hne hmade
  have hready := hfirst.made hmade
  have hwdFirst : last.workingDirectory = first.workingDirectory :=
    hwd.trans hspec.workingDirectory
  obtain ⟨hwdRemoved, hother, hown⟩ := node?_removeDirectory hremoved
  rw [place_eq hwdFirst] at hother hown
  have hrestored : Restored first ready removed (first.place path) := by
    refine ⟨hwdRemoved.trans hwdFirst, ?_, hempty, hown, hstays, fun location hlocation => ?_⟩
    · rw [hspec.node?, if_pos (place_mem_way first path)]
    · rw [hother location hlocation, node?_emptied]
      split
      · rfl
      · next hbelow => exact hsame location (Bool.eq_false_iff.2 hbelow)
  have hwithin := hrestored.within_first fun _ _ => node?_makeDirectories hne hmade
  have hwell := hlast.removed hremoved
  obtain ⟨again, hagain⟩ := exists_makeDirectories hwell hready
    (hrestored.within_ready hspec.workingDirectory) hspec.isDirectory (hspec.makeable.mono hwithin)
  rw [hagain, hrestored.remade hspec (made_of_makeDirectories hne hagain) hready
    (hwell.made hagain)]

end FileTree

end SourcePreprocessor
