import SourcePreprocessor.Proofs.File.Way

/-!
# Making directories again

Making the directories of a path tries the path, goes back to its parent when something is missing,
and comes forward again. What it leaves can be said without that order, by the way of the path:

> `made_of_makeDirectories`: when it succeeds, directories stand all along the way, and nothing else
> has changed;
> `exists_makeDirectories`: it succeeds where the path could be followed in a larger tree, starting
> from a directory that is there;
> `makeDirectories_again`: a path that leads to a directory is left alone.

A larger tree has everything that the smaller one has, at the same places, but its files can hold
something else (`Within`).
-/

namespace SourcePreprocessor

namespace FileTree

/-! ## Larger trees -/

/-- The second tree has the directories and files of the first one. -/
structure Within (tree other : FileTree) : Prop where
  workingDirectory : other.workingDirectory = tree.workingDirectory
  directory : ∀ location, tree.node? location = some .directory →
    other.node? location = some .directory
  file : ∀ location, (tree.file? location).isSome = true → (other.file? location).isSome = true

theorem isSome_file?_iff {tree : FileTree} {location : Location} :
    (tree.file? location).isSome = true ↔
      ∃ content, tree.node? location = some (.file content) := by
  unfold file?
  cases tree.node? location with
  | none => simp
  | some node => cases node <;> simp [Node.content?]

/-- A path leads to something when it can be followed to its place. -/
theorem exists?_iff {tree : FileTree} {path : Path} :
    tree.exists? path = true ↔ tree.resolve path = .ok (tree.place path) := by
  unfold exists? locate?
  constructor
  · intro h
    obtain ⟨location, hlocation⟩ := Option.isSome_iff_exists.1 h
    obtain rfl := locate?_eq_some hlocation
    exact eq_ok_of_toOption hlocation
  · intro h
    rw [h]
    rfl

namespace Within

variable {tree other third : FileTree} {location : Location}

theorem refl (tree : FileTree) : tree.Within tree := ⟨rfl, fun _ h => h, fun _ h => h⟩

theorem trans (h : tree.Within other) (h' : other.Within third) : tree.Within third :=
  ⟨h'.workingDirectory.trans h.workingDirectory,
    fun location hnode => h'.directory location (h.directory location hnode),
    fun location hfile => h'.file location (h.file location hfile)⟩

theorem isSome (h : tree.Within other) (hsome : (tree.node? location).isSome = true) :
    (other.node? location).isSome = true := by
  cases hnode : tree.node? location with
  | none =>
    rw [hnode] at hsome
    nomatch hsome
  | some node =>
    cases node with
    | directory =>
      rw [h.directory location hnode]
      rfl
    | file content =>
      obtain ⟨content', hfile⟩ :=
        isSome_file?_iff.1 (h.file location (isSome_file?_iff.2 ⟨content, hnode⟩))
      rw [hfile]
      rfl

/-- Where the larger tree has a directory, the smaller one has that or nothing. -/
theorem directory_or_none (h : tree.Within other)
    (hnode : other.node? location = some .directory) :
    tree.node? location = some .directory ∨ tree.node? location = none := by
  cases hown : tree.node? location with
  | none => exact .inr rfl
  | some node =>
    cases node with
    | directory => exact .inl rfl
    | file content =>
      obtain ⟨content', hfile⟩ :=
        isSome_file?_iff.1 (h.file location (isSome_file?_iff.2 ⟨content, hown⟩))
      rw [hfile] at hnode
      nomatch hnode

/-- A piece that can be followed in a tree leads to the same place in a larger one. -/
theorem step (h : tree.Within other) {piece : Text} {found : Location}
    (hstep : tree.step location piece = .ok found) : other.step location piece = .ok found := by
  have hnode := node?_of_step hstep
  unfold FileTree.step at hstep ⊢
  rw [hnode] at hstep
  rw [h.directory location hnode]
  dsimp only at hstep ⊢
  split
  · next hidle => rwa [if_pos hidle] at hstep
  · next hidle =>
    rw [if_neg hidle] at hstep
    split
    · next hup => rwa [if_pos hup] at hstep
    · next hup =>
      rw [if_neg hup] at hstep
      by_cases hsome : (tree.node? (location ++ [piece])).isSome = true
      · rw [if_pos hsome] at hstep
        rwa [if_pos (h.isSome hsome)]
      · rw [if_neg hsome] at hstep
        split at hstep <;> nomatch hstep

theorem follow (h : tree.Within other) {pieces : List Text} {found : Location}
    (hfollow : tree.follow location pieces = .ok found) :
    other.follow location pieces = .ok found := by
  induction pieces generalizing location with
  | nil => exact hfollow
  | cons piece pieces ih =>
    obtain ⟨next, hstep, hrest⟩ := bind_eq_ok_iff.1 hfollow
    exact bind_eq_ok_iff.2 ⟨next, h.step hstep, ih hrest⟩

theorem start (h : tree.Within other) (path : Path) : other.start path = tree.start path := by
  unfold FileTree.start
  rw [h.workingDirectory]

/-- So does a path. -/
theorem resolve (h : tree.Within other) {path : Path} {found : Location}
    (hresolve : tree.resolve path = .ok found) : other.resolve path = .ok found := by
  rw [resolve_eq_ok_iff] at hresolve ⊢
  rw [h.start]
  exact ⟨hresolve.1, h.follow hresolve.2⟩

theorem exists? (h : tree.Within other) {path : Path} (hpath : tree.exists? path = true) :
    other.exists? path = true := by
  rw [exists?_iff] at hpath ⊢
  rw [place_eq h.workingDirectory]
  exact h.resolve hpath

theorem isDirectory (h : tree.Within other) {path : Path} (hpath : tree.isDirectory path = true) :
    other.isDirectory path = true := by
  rw [isDirectory_iff] at hpath ⊢
  rw [way_eq h.workingDirectory]
  exact ⟨hpath.1, fun location hlocation => h.directory location (hpath.2 location hlocation)⟩

end Within

/-! ## The last piece of a path -/

/-- The last piece that is not empty is a single dot. -/
def EndsHere (path : Path) : Prop :=
  ∃ before, (rawPieces path).reverse.dropWhile List.isEmpty = ['.'] :: before

section LastPiece

variable {path : Path} {last : Text} {before : List Text}

/-- The strides of a path are those of its pieces up to the last that is not empty. -/
theorem strides_of_last (h : (rawPieces path).reverse.dropWhile List.isEmpty = last :: before) :
    strides path = (before.reverse ++ [last]).filter fun piece => !Path.isIdle piece := by
  have hsplit : (rawPieces path).reverse.takeWhile List.isEmpty ++ last :: before =
      (rawPieces path).reverse := by rw [← h, List.takeWhile_append_dropWhile]
  have hpieces := congrArg List.reverse hsplit
  rw [List.reverse_append, List.reverse_cons, List.reverse_reverse] at hpieces
  have hempty : ((rawPieces path).reverse.takeWhile List.isEmpty).reverse.filter
      (fun piece => !Path.isIdle piece) = [] := by
    refine List.filter_eq_nil_iff.2 fun piece hpiece => ?_
    have hnil := List.mem_takeWhile_imp (List.mem_reverse.1 hpiece)
    simp [Path.isIdle, hnil]
  unfold strides
  rw [← hpieces, List.filter_append, hempty, List.append_nil]

/-- A path of empty pieces that is right starts at the root and goes nowhere. -/
theorem start_of_empty (tree : FileTree) (hfault : pathFault? path = none)
    (h : (rawPieces path).reverse.dropWhile List.isEmpty = []) :
    tree.start path = [] ∧ strides path = [] := by
  have hempty : ∀ piece ∈ rawPieces path, piece = [] := fun piece hpiece =>
    List.isEmpty_iff.1 (List.dropWhile_eq_nil_iff.1 h piece (List.mem_reverse.2 hpiece))
  constructor
  · obtain ⟨init, last, hsplit, htext, -⟩ := Text.exists_splitOn path.text
    have hall : ∀ piece ∈ init ++ [last], piece = [] := hsplit ▸ hempty
    have habsolute : path.isAbsolute = true := by
      cases init with
      | nil =>
        obtain rfl := hall last (List.mem_singleton_self _)
        exact absurd htext (pathFault?_eq_none_iff.1 hfault).2.1
      | cons first init =>
        obtain rfl := hall first List.mem_cons_self
        unfold Path.isAbsolute
        rw [htext, Text.withSlashes_cons]
        rfl
    exact if_pos habsolute
  · refine List.filter_eq_nil_iff.2 fun piece hpiece => ?_
    rw [hempty piece hpiece]
    decide

/-- A slash at the end of a path makes no last piece. -/
theorem endsHere_slashed (h : EndsHere path) : EndsHere ⟨slashed path⟩ := by
  unfold slashed
  split
  · exact h
  · obtain ⟨before, hbefore⟩ := h
    refine ⟨before, ?_⟩
    show (Text.splitOn (· = '/') (path.text ++ '/' :: [])).reverse.dropWhile _ = _
    rw [Text.splitOn_append_cons (by decide), List.reverse_append]
    exact hbefore

/-- So it leads to the root. -/
theorem isDirectory_of_empty (tree : FileTree) (hfault : pathFault? path = none)
    (h : (rawPieces path).reverse.dropWhile List.isEmpty = []) : tree.isDirectory path = true := by
  obtain ⟨hstart, hstrides⟩ := start_of_empty tree hfault h
  refine isDirectory_iff.2 ⟨hfault, ?_⟩
  unfold way
  rw [hstart, hstrides, List.scanl_nil, List.forall_mem_singleton]
  rfl

theorem last_ne_nil (h : (rawPieces path).reverse.dropWhile List.isEmpty = last :: before) :
    last ≠ [] := by
  have hhead := List.head?_dropWhile_not List.isEmpty (rawPieces path).reverse
  rw [h] at hhead
  rintro rfl
  nomatch hhead

/-- The parent of a path ends in a dot only when it goes nowhere. -/
theorem strides_of_endsHere_parent {parent : Path} (h : path.parent? = some parent)
    (hends : EndsHere parent) : strides parent = [] := by
  obtain ⟨before, last, idle, hpieces, -, -, rfl⟩ | ⟨-, rfl, -⟩ := parent?_cases h
  · obtain ⟨others, hothers⟩ := endsHere_slashed hends
    obtain ⟨hslashed, hslash⟩ := slashed_parent hpieces
    have hraw := rawPieces_withSlashes hslash []
    rw [List.append_nil, ← hslashed] at hraw
    obtain hnil | ⟨init, final, hconcat⟩ :=
      List.eq_nil_or_concat (before.rdropWhile Path.isIdle)
    · rw [← strides_slashed]
      unfold strides
      rw [hraw, hnil, List.append_nil, List.filter_append]
      have hlead := filter_leadPieces path []
      rw [List.append_nil] at hlead
      exact (List.append_nil _).trans hlead
    · -- the last of the pieces that are kept is not idle
      rw [List.concat_eq_append] at hconcat
      have hidle : Path.isIdle final = false := by
        have hlast := List.rdropWhile_last_not Path.isIdle before (by simp [hconcat])
        simpa [hconcat] using hlast
      rw [hraw, hconcat, ← List.append_assoc, List.reverse_append, List.reverse_append,
        List.reverse_singleton] at hothers
      have hfinal : final ≠ [] := by
        rintro rfl
        nomatch hidle
      have hdrop : ([final] ++ (leadPieces path ++ init).reverse).dropWhile List.isEmpty =
          final :: (leadPieces path ++ init).reverse :=
        List.dropWhile_cons_of_neg (by simpa using hfinal)
      obtain rfl : final = ['.'] := (List.cons.inj (hdrop.symm.trans hothers)).1
      nomatch hidle
  · rfl

end LastPiece

/-! ## What is made -/

section Made

variable {tree made : FileTree} {path : Path}

theorem ensureDirectory_of_isDirectory (h : tree.isDirectory path = true) :
    ∃ made, tree.ensureDirectory path = (.ok (), made) := by
  unfold ensureDirectory
  cases tree.makeDirectory path with
  | ok made => exact ⟨made, rfl⟩
  | error fault => exact ⟨tree, if_pos h⟩

/-- What one directory needs that is made: directories all along the way to it, and nothing at its
place. -/
theorem makeDirectory_spec (h : tree.makeDirectory path = .ok made) :
    pathFault? path = none ∧ ¬EndsHere path ∧ tree.node? (tree.place path) = none ∧
    (∀ location ∈ tree.way path, location = tree.place path ∨
      tree.node? location = some .directory) ∧
    tree.node? (tree.start path) = some .directory ∧
    made = tree.insert (tree.place path) .directory ∧ tree.place path ≠ [] := by
  obtain ⟨directory, last, hsplit, hlast, hfree, rfl⟩ := makeDirectory_eq_ok h
  obtain ⟨hdirectory, hname, -⟩ := splitLast_entry hsplit hlast
  have hplace := splitLast_eq_ok hsplit hlast
  unfold splitLast at hsplit
  split at hsplit
  · nomatch hsplit
  · obtain ⟨-, rfl⟩ := Prod.mk.inj (Except.ok.inj hsplit)
    nomatch hlast
  · next found before hfault hpieces =>
    obtain ⟨reached, hfollow, hrest⟩ := bind_eq_ok_iff.1 hsplit
    obtain ⟨rfl, rfl⟩ : reached = directory ∧ found = last := by
      split at hrest
      · split at hrest
        · nomatch hrest
        · exact Prod.mk.inj (Except.ok.inj hrest)
      · nomatch hrest
      · nomatch hrest
    have hbefore := follow_directory_iff.1 ⟨reached, hfollow, hdirectory⟩
    rw [hplace]
    refine ⟨hfault, ?_, hfree, fun location hlocation => ?_, hbefore _ (mem_scanl_start _ _), rfl,
      by simp⟩
    · rintro ⟨others, hdot⟩
      rw [hpieces] at hdot
      exact hname.2.2.1 (List.cons.inj hdot).1
    · unfold way at hlocation
      rw [strides_of_last hpieces, mem_scanl_filter, mem_scanl_concat, ← follow_eq_ok hfollow,
        Location.advance_name _ hname] at hlocation
      exact hlocation.symm.imp_right (hbefore location)

/-- Of a directory that is there or is made now. -/
theorem ensureDirectory_spec (h : tree.ensureDirectory path = (.ok (), made)) :
    made.workingDirectory = tree.workingDirectory ∧ made.isDirectory path = true ∧
    tree.node? (tree.start path) = some .directory ∧
    (EndsHere path → tree.node? (tree.place path) = some .directory) ∧
    ∀ location, made.node? location =
      if location = tree.place path then some .directory else tree.node? location := by
  unfold ensureDirectory at h
  split at h
  · next changed hmake =>
    obtain ⟨-, rfl⟩ := Prod.mk.inj h
    obtain ⟨hfault, hends, -, hway, hstart, rfl, hne⟩ := makeDirectory_spec hmake
    have hnode := node?_insert tree hne .directory
    refine ⟨rfl, isDirectory_iff.2 ⟨hfault, fun location hlocation => ?_⟩, hstart,
      (absurd · hends), hnode⟩
    rw [hnode]
    split
    · rfl
    · next hother => exact (hway location hlocation).resolve_left hother
  · split at h
    · next hdirectory =>
      obtain ⟨-, rfl⟩ := Prod.mk.inj h
      have hway := (isDirectory_iff.1 hdirectory).2
      refine ⟨rfl, hdirectory, hway _ (start_mem_way _ _), fun _ => hway _ (place_mem_way _ _),
        fun location => ?_⟩
      split
      · next heq => rw [heq, hway _ (place_mem_way _ _)]
      · rfl
    · nomatch h

/-- What is needed besides the names to make the directories of a path: it starts from a directory,
and where it ends in a dot, its place is there or on the way of its parent. -/
structure Makeable (tree : FileTree) (path : Path) : Prop where
  start : tree.node? (tree.start path) = some .directory
  place : EndsHere path → tree.node? (tree.place path) = some .directory ∨
    ∃ parent, path.parent? = some parent ∧ tree.place path ∈ tree.way parent

/-- What making the directories of a path does. -/
structure Made (tree : FileTree) (path : Path) (made : FileTree) : Prop where
  workingDirectory : made.workingDirectory = tree.workingDirectory
  isDirectory : made.isDirectory path = true
  makeable : tree.Makeable path
  node? : ∀ location, made.node? location =
    if location ∈ tree.way path then some .directory else tree.node? location

/-- One directory, after those on the way of its parent may have been made. -/
theorem made_of_ensureDirectory {before : FileTree}
    (hwd : before.workingDirectory = tree.workingDirectory)
    (hstart : tree.node? (tree.start path) = some .directory)
    (hbefore : ∀ location, before.node? location = tree.node? location ∨
      ∃ parent, path.parent? = some parent ∧ location ∈ tree.way parent)
    (h : before.ensureDirectory path = (.ok (), made)) : tree.Made path made := by
  obtain ⟨hwd', hdirectory, -, hends, hnode⟩ := ensureDirectory_spec h
  rw [place_eq hwd] at hends hnode
  refine ⟨hwd'.trans hwd, hdirectory, ⟨hstart, fun hdot => ?_⟩, fun location => ?_⟩
  · obtain hsame | hpassed := hbefore (tree.place path)
    · exact .inl (hsame.symm.trans (hends hdot))
    · exact .inr hpassed
  · split
    · next hway =>
      refine (isDirectory_iff.1 hdirectory).2 location ?_
      rwa [way_eq (hwd'.trans hwd)]
    · next hway =>
      have hplace : location ≠ tree.place path := by
        rintro rfl
        exact hway (place_mem_way tree path)
      rw [hnode, if_neg hplace]
      refine (hbefore location).resolve_right ?_
      rintro ⟨parent, hparent, hlocation⟩
      exact hway ((mem_way_iff hparent).2 (.inl hlocation))

/-- Nothing is made for the empty path. -/
theorem eq_of_makeDirectoriesUpTo_empty {bound : Nat} (hempty : path.text = [])
    (h : makeDirectoriesUpTo bound tree path = (.ok (), made)) : tree = made := by
  cases bound with
  | zero => nomatch h
  | succ bound =>
    unfold makeDirectoriesUpTo at h
    rw [if_pos (by simpa [components_eq_nil_iff] using hempty)] at h
    exact (Prod.mk.inj h).2

/-- Making directories step by step makes those along the way. -/
theorem made_of_makeDirectoriesUpTo (bound : Nat) : ∀ {made : FileTree} {path : Path},
    path.text ≠ [] → makeDirectoriesUpTo bound tree path = (.ok (), made) →
      tree.Made path made := by
  induction bound with
  | zero => nofun
  | succ bound ih =>
    intro made path hne h
    unfold makeDirectoriesUpTo at h
    rw [if_neg (by simpa [components_eq_nil_iff] using hne)] at h
    split at h
    · next parent _ hparent =>
      split at h
      · next before hbefore =>
        by_cases hempty : parent.text = []
        · obtain rfl := eq_of_makeDirectoriesUpTo_empty hempty hbefore
          exact made_of_ensureDirectory rfl (ensureDirectory_spec h).2.2.1 (fun _ => .inl rfl) h
        · have hmade := ih hempty hbefore
          refine made_of_ensureDirectory hmade.workingDirectory ?_ (fun location => ?_) h
          · rw [← start_parent tree hparent]
            exact hmade.makeable.start
          · rw [hmade.node?]
            split
            · next hway => exact .inr ⟨parent, hparent, hway⟩
            · exact .inl rfl
      · next hfailed => exact absurd h (hfailed made)
    · exact made_of_ensureDirectory rfl (ensureDirectory_spec h).2.2.1 (fun _ => .inl rfl) h

/-- Making the directories of a path, none of which are needed for the empty one, puts directories
all along its way and changes nothing else. -/
theorem made_of_makeDirectories (hne : path.text ≠ [])
    (h : tree.makeDirectories path = (.ok (), made)) : tree.Made path made :=
  made_of_makeDirectoriesUpTo _ hne h

theorem makeDirectories_empty (hempty : path.text = []) :
    tree.makeDirectories path = (.ok (), tree) := by
  unfold makeDirectories makeDirectoriesUpTo
  rw [if_pos (by simpa [components_eq_nil_iff] using hempty)]

theorem Made.within (h : tree.Made path made) (hwritten : tree.Written [] made) :
    tree.Within made where
  workingDirectory := h.workingDirectory
  directory location hnode := by
    rw [h.node?, hnode, ite_self]
  file location hfile := by
    rw [hwritten.file?]
    exact hfile

theorem within_makeDirectories (h : tree.makeDirectories path = (.ok (), made)) :
    tree.Within made := by
  by_cases hempty : path.text = []
  · rw [makeDirectories_empty hempty] at h
    obtain ⟨-, rfl⟩ := Prod.mk.inj h
    exact .refl tree
  · have hwritten := written_makeDirectories tree path
    rw [h] at hwritten
    exact (made_of_makeDirectories hempty h).within hwritten

end Made

/-! ## When directories can be made -/

section Success

variable {tree larger : FileTree} (hlarger : larger.WellFormed) (hwithin : tree.Within larger)

include hlarger hwithin

omit hwithin in
/-- A piece that leads to a directory is not too long. -/
theorem isTooLong_of_advance {location : Location} {piece : Text}
    (h : larger.node? (location.advance piece) = some .directory) : isTooLong piece = false := by
  unfold Location.advance at h
  split at h
  · next hidle =>
    obtain rfl | rfl : piece = [] ∨ piece = ['.'] := by simpa [Path.isIdle] using hidle
    · rfl
    · decide
  · split at h
    · next hup =>
      rw [hup]
      decide
    · exact (hlarger.isEntryName h piece (by simp)).2

omit hwithin in
/-- From a directory, a piece that leads to a directory in the larger tree leads there, or to where
nothing is. -/
theorem step_within {location : Location} {piece : Text}
    (hnode : tree.node? location = some .directory)
    (hnext : larger.node? (location.advance piece) = some .directory) :
    tree.step location piece = .ok (location.advance piece) ∨
      tree.step location piece = .error .notFound := by
  have hshort := isTooLong_of_advance hlarger hnext
  unfold step Location.advance
  rw [hnode]
  dsimp only
  by_cases hidle : Path.isIdle piece = true
  · rw [if_pos hidle, if_pos hidle]
    exact .inl rfl
  · rw [if_neg hidle, if_neg hidle]
    by_cases hup : piece = ['.', '.']
    · rw [if_pos hup, if_pos hup]
      exact .inl rfl
    · rw [if_neg hup, if_neg hup]
      split
      · exact .inl rfl
      · rw [if_neg (by simp [hshort])]
        exact .inr rfl

/-- Pieces that lead to a directory in the larger tree lead there, or to where nothing is. -/
theorem follow_within {location : Location} {pieces : List Text}
    (h : ∀ passed ∈ pieces.scanl Location.advance location,
      larger.node? passed = some .directory) :
    (∀ passed ∈ pieces.scanl Location.advance location, tree.node? passed = some .directory) ∨
      tree.follow location pieces = .error .notFound ∨
      ∃ found, tree.follow location pieces = .ok found ∧ tree.node? found = none := by
  induction pieces generalizing location with
  | nil =>
    rw [List.scanl_nil, List.forall_mem_singleton] at h ⊢
    exact (hwithin.directory_or_none h).imp_right fun hnone => .inr ⟨location, rfl, hnone⟩
  | cons piece pieces ih =>
    rw [List.scanl_cons, List.forall_mem_cons] at h ⊢
    obtain hnode | hnone := hwithin.directory_or_none h.1
    · obtain hstep | hstep := step_within hlarger hnode (h.2 _ (mem_scanl_start _ _))
      · refine (ih h.2).imp (fun hrest => ⟨hnode, hrest⟩) (Or.imp (fun hrest => ?_) ?_)
        · show (tree.step location piece >>= _) = _
          rw [hstep]
          exact hrest
        · rintro ⟨found, hrest, hfound⟩
          exact ⟨found, bind_eq_ok_iff.2 ⟨_, hstep, hrest⟩, hfound⟩
      · refine .inr (.inl ?_)
        show (tree.step location piece >>= _) = _
        rw [hstep]
        rfl
    · refine .inr (.inl ?_)
      show (tree.step location piece >>= _) = _
      unfold step
      rw [hnone]
      rfl

section LastStep

variable {path : Path} (hpath : larger.isDirectory path = true) {last : Text} {before : List Text}
  (hlast : (rawPieces path).reverse.dropWhile List.isEmpty = last :: before)

include hpath hlast

omit hlarger hwithin in
/-- Directories stand before the last piece and after it. -/
theorem node?_of_last (hwd : larger.workingDirectory = tree.workingDirectory) :
    (∀ passed ∈ before.reverse.scanl Location.advance (tree.start path),
      larger.node? passed = some .directory) ∧
    larger.node? ((before.reverse.foldl Location.advance (tree.start path)).advance last) =
      some .directory := by
  have hway := (isDirectory_iff.1 hpath).2
  rw [way_eq hwd] at hway
  unfold way at hway
  rw [strides_of_last hlast] at hway
  simp only [mem_scanl_filter, mem_scanl_concat] at hway
  exact ⟨fun passed hpassed => hway passed (.inl hpassed), hway _ (.inr rfl)⟩

/-- With directories all along to the last piece, the directory is there or can be made. -/
theorem exists_ensureDirectory_of_before (hwell : tree.WellFormed)
    (hbefore : ∀ passed ∈ before.reverse.scanl Location.advance (tree.start path),
      tree.node? passed = some .directory) :
    ∃ made, tree.ensureDirectory path = (.ok (), made) := by
  obtain ⟨-, hnext⟩ := node?_of_last hpath hlast hwithin.workingDirectory
  have hfault := (isDirectory_iff.1 hpath).1
  obtain ⟨reached, hfollow, hnode⟩ := follow_directory_iff.2 hbefore
  rw [← follow_eq_ok hfollow] at hnext
  have hsplit : tree.splitLast path = .ok (reached, last) :=
    splitLast_of_follow hfault hlast hfollow hnode (isTooLong_of_advance hlarger hnext)
  by_cases hmake : isEntryName last = true ∧ tree.node? (reached ++ [last]) = none
  · refine ⟨tree.insert (reached ++ [last]) .directory, ?_⟩
    unfold ensureDirectory makeDirectory
    rw [hsplit, ok_bind]
    dsimp only
    rw [hmake.1, hmake.2]
    rfl
  · -- otherwise it is there already
    refine ensureDirectory_of_isDirectory (isDirectory_iff.2 ⟨hfault, fun location hlocation => ?_⟩)
    unfold way at hlocation
    rw [strides_of_last hlast, mem_scanl_filter, mem_scanl_concat, ← follow_eq_ok hfollow]
      at hlocation
    obtain hpassed | rfl := hlocation
    · exact hbefore location hpassed
    · refine (hwithin.directory_or_none hnext).resolve_right fun hnone => ?_
      unfold Location.advance at hnone hnext
      split at hnone
      · rw [hnode] at hnone
        nomatch hnone
      · next hidle =>
        split at hnone
        · rw [hwell.node?_dropLast hnode] at hnone
          nomatch hnone
        · next hup =>
          have hdot : last ≠ ['.'] := by
            rintro rfl
            exact hidle rfl
          exact hmake ⟨by simp [isEntryName, hdot, hup], hnone⟩

end LastStep

/-- One directory can be made, or is there already, or what leads to it is missing. -/
theorem makeDirectory_within (hwell : tree.WellFormed) {path : Path}
    (hpath : larger.isDirectory path = true) :
    tree.makeDirectory path = .error .notFound ∨
      ∃ made, tree.ensureDirectory path = (.ok (), made) := by
  have hfault := (isDirectory_iff.1 hpath).1
  match hlast : (rawPieces path).reverse.dropWhile List.isEmpty with
  | [] => exact .inr (ensureDirectory_of_isDirectory (isDirectory_of_empty tree hfault hlast))
  | last :: before =>
    obtain ⟨hway, -⟩ := node?_of_last hpath hlast hwithin.workingDirectory
    obtain hbefore | hmissing := follow_within hlarger hwithin hway
    · exact .inr (exists_ensureDirectory_of_before hlarger hwithin hpath hlast hwell hbefore)
    · left
      unfold makeDirectory
      rw [splitLast_of_missing hfault hlast hmissing]
      rfl

/-- With directories all along the way of its parent, a directory is there or can be made. -/
theorem exists_ensureDirectory (hwell : tree.WellFormed) {path parent : Path}
    (hpath : larger.isDirectory path = true) (hparent : path.parent? = some parent)
    (hway : ∀ location ∈ tree.way parent, tree.node? location = some .directory)
    (hends : EndsHere path → tree.node? (tree.place path) = some .directory) :
    ∃ made, tree.ensureDirectory path = (.ok (), made) := by
  match hlast : (rawPieces path).reverse.dropWhile List.isEmpty with
  | [] =>
    exact ensureDirectory_of_isDirectory
      (isDirectory_of_empty tree (isDirectory_iff.1 hpath).1 hlast)
  | last :: before =>
    refine exists_ensureDirectory_of_before hlarger hwithin hpath hlast hwell
      fun passed hpassed => ?_
    have hstrides := strides_of_last hlast
    rw [List.filter_append] at hstrides
    rw [← mem_scanl_filter] at hpassed
    by_cases hidle : Path.isIdle last = true
    · -- a last piece that goes nowhere is a dot
      obtain rfl : last = ['.'] := by
        simpa [Path.isIdle, last_ne_nil hlast] using hidle
      rw [List.filter_cons_of_neg (by simp [hidle]), List.filter_nil, List.append_nil] at hstrides
      have hall : passed ∈ tree.way path := by
        unfold way
        rwa [hstrides]
      obtain hparent | rfl := (mem_way_iff hparent).1 hall
      · exact hway passed hparent
      · exact hends ⟨before, hlast⟩
    · rw [List.filter_cons_of_pos (by simp [hidle]), List.filter_nil] at hstrides
      refine hway passed ?_
      unfold way
      rwa [strides_parent hparent, start_parent tree hparent, hstrides, List.dropLast_concat]

end Success

/-- The parent of a path can be made where the path can. -/
theorem Makeable.parent {tree : FileTree} {path parent : Path} (h : tree.Makeable path)
    (hparent : path.parent? = some parent) : tree.Makeable parent := by
  have hstart := h.start
  rw [← start_parent tree hparent] at hstart
  refine ⟨hstart, fun hends => .inl ?_⟩
  rw [place_eq_strides, strides_of_endsHere_parent hparent hends]
  exact hstart

theorem Makeable.mono {tree other : FileTree} {path : Path} (h : tree.Makeable path)
    (hwithin : tree.Within other) : other.Makeable path := by
  refine ⟨?_, fun hends => ?_⟩
  · rw [hwithin.start]
    exact hwithin.directory _ h.start
  · rw [place_eq hwithin.workingDirectory]
    refine (h.place hends).imp (hwithin.directory _) fun ⟨parent, hparent, hway⟩ => ?_
    exact ⟨parent, hparent, by rwa [way_eq hwithin.workingDirectory]⟩

/-- A path that is right and has no parent leads to the root. -/
theorem isDirectory_of_parent?_eq_none (tree : FileTree) {path : Path}
    (hfault : pathFault? path = none) (h : path.parent? = none) : tree.isDirectory path = true := by
  have hidle : path.pieces.reverse.dropWhile Path.isIdle = [] ∧ path.isAbsolute = true := by
    unfold Path.parent? at h
    split at h
    · nomatch h
    · next hdrop =>
      refine ⟨hdrop, ?_⟩
      split at h
      · next hpath =>
        rw [Bool.or_eq_true, List.isEmpty_iff] at hpath
        exact hpath.resolve_right (pathFault?_eq_none_iff.1 hfault).2.1
      · nomatch h
  have hstrides : strides path = [] := by
    rw [strides_eq_pieces, List.filter_eq_nil_iff]
    intro piece hpiece
    simp [List.dropWhile_eq_nil_iff.1 hidle.1 piece (List.mem_reverse.2 hpiece)]
  refine isDirectory_iff.2 ⟨hfault, ?_⟩
  unfold way start
  rw [hstrides, if_pos hidle.2, List.scanl_nil, List.forall_mem_singleton]
  rfl

/-- What stands in a tree after directories were made from a directory that was there. -/
theorem node?_makeDirectoriesUpTo {tree made : FileTree} {path : Path} {bound : Nat}
    (h : makeDirectoriesUpTo bound tree path = (.ok (), made))
    (hstart : tree.node? (tree.start path) = some .directory) (location : Location) :
    made.node? location =
      if location ∈ tree.way path then some .directory else tree.node? location := by
  by_cases hempty : path.text = []
  · obtain rfl := eq_of_makeDirectoriesUpTo_empty hempty h
    have hway : tree.way path = [tree.start path] := by
      obtain ⟨text⟩ := path
      obtain rfl : text = [] := hempty
      rfl
    rw [hway]
    split
    · next hlocation => rw [List.mem_singleton.1 hlocation, hstart]
    · rfl
  · exact (made_of_makeDirectoriesUpTo bound hempty h).node? location

/-- The parent of a path to a directory leads to one, too, unless it is empty. -/
theorem isDirectory_parent {tree : FileTree} {path parent : Path}
    (hdirectory : tree.isDirectory path = true) (hparent : path.parent? = some parent) :
    tree.isDirectory parent = true ∨ parent.text = [] := by
  obtain ⟨hfault, hway⟩ := isDirectory_iff.1 hdirectory
  by_cases hempty : parent.text = []
  · exact .inr hempty
  · refine .inl (isDirectory_iff.2 ⟨pathFault?_parent hparent hfault hempty, ?_⟩)
    exact fun location hlocation => hway location ((mem_way_iff hparent).2 (.inl hlocation))

/-- Directories that were made on the way to one in a larger tree are there, too. -/
theorem within_of_makeDirectoriesUpTo {tree made larger : FileTree} {path : Path} {bound : Nat}
    (hwithin : tree.Within larger) (h : makeDirectoriesUpTo bound tree path = (.ok (), made))
    (hstart : tree.node? (tree.start path) = some .directory)
    (hway : ∀ location ∈ tree.way path, larger.node? location = some .directory) :
    made.Within larger := by
  have hwritten := written_makeDirectoriesUpTo bound tree path
  rw [h] at hwritten
  refine ⟨?_, fun location hlocation => ?_, fun location hfile => ?_⟩
  · rw [hwritten.workingDirectory, hwithin.workingDirectory]
  · rw [node?_makeDirectoriesUpTo h hstart] at hlocation
    split at hlocation
    · next hpassed => exact hway location hpassed
    · exact hwithin.directory location hlocation
  · rw [hwritten.file?] at hfile
    exact hwithin.file location hfile

/-- Directories can be made step by step where they are all there in a larger tree. -/
theorem exists_makeDirectoriesUpTo {larger : FileTree} (hlarger : larger.WellFormed)
    (bound : Nat) : ∀ {tree : FileTree} {path : Path}, tree.WellFormed → tree.Within larger →
      larger.isDirectory path = true ∨ path.text = [] → tree.Makeable path →
        path.text.length < bound →
          ∃ made, makeDirectoriesUpTo bound tree path = (.ok (), made) := by
  induction bound with
  | zero => exact fun _ _ _ _ hbound => absurd hbound (Nat.not_lt_zero _)
  | succ bound ih =>
    intro tree path hwell hwithin hpath hmakeable hbound
    unfold makeDirectoriesUpTo
    by_cases hempty : path.text = []
    · exact ⟨tree, if_pos (by simpa [components_eq_nil_iff] using hempty)⟩
    · rw [if_neg (by simpa [components_eq_nil_iff] using hempty)]
      have hdirectory := hpath.resolve_right hempty
      split
      · next parent hmissing hparent =>
        -- back to the parent, and then forward again
        obtain ⟨made, hmade⟩ := ih hwell hwithin (isDirectory_parent hdirectory hparent)
          (hmakeable.parent hparent)
          (Nat.lt_of_lt_of_le (length_parent hparent) (Nat.le_of_lt_succ hbound))
        rw [hmade]
        have hstart := (hmakeable.parent hparent).start
        have hnode := node?_makeDirectoriesUpTo hmade hstart
        have hwithin' : made.Within larger := by
          refine within_of_makeDirectoriesUpTo hwithin hmade hstart fun location hlocation => ?_
          refine (isDirectory_iff.1 hdirectory).2 location ?_
          rw [way_eq hwithin.workingDirectory]
          exact (mem_way_iff hparent).2 (.inl hlocation)
        have hwell' := wellFormed_makeDirectoriesUpTo hwell bound parent
        have hwritten := written_makeDirectoriesUpTo bound tree parent
        rw [hmade] at hwell' hwritten
        refine exists_ensureDirectory hlarger hwithin' hwell' hdirectory hparent ?_ fun hends => ?_
        · intro location hlocation
          rw [way_eq hwritten.workingDirectory] at hlocation
          rw [hnode, if_pos hlocation]
        · rw [place_eq hwritten.workingDirectory, hnode]
          split
          · rfl
          · next hmissed =>
            refine (hmakeable.place hends).resolve_right ?_
            rintro ⟨other, hother, hplace⟩
            obtain rfl := Option.some.inj (hother.symm.trans hparent)
            exact hmissed hplace
      · next hcases =>
        obtain hmissing | hensured := makeDirectory_within hlarger hwithin hwell hdirectory
        · refine ensureDirectory_of_isDirectory
            (isDirectory_of_parent?_eq_none tree (isDirectory_iff.1 hdirectory).1 ?_)
          exact Option.eq_none_iff_forall_ne_some.2 fun parent => hcases parent hmissing
        · exact hensured

/-- Directories can be made where they are all there in a larger tree. -/
theorem exists_makeDirectories {tree larger : FileTree} {path : Path} (hwell : tree.WellFormed)
    (hlarger : larger.WellFormed) (hwithin : tree.Within larger)
    (hpath : larger.isDirectory path = true) (hmakeable : tree.Makeable path) :
    ∃ made, tree.makeDirectories path = (.ok (), made) :=
  exists_makeDirectoriesUpTo hlarger _ hwell hwithin (.inl hpath) hmakeable (Nat.lt_succ_self _)

/-- The directories of a path that leads to a directory are there. -/
theorem makeDirectories_again {tree : FileTree} {path : Path} (hwell : tree.WellFormed)
    (hpath : tree.isDirectory path = true) : tree.makeDirectories path = (.ok (), tree) := by
  obtain ⟨hfault, hway⟩ := isDirectory_iff.1 hpath
  have hmakeable : tree.Makeable path :=
    ⟨hway _ (start_mem_way _ _), fun _ => .inl (hway _ (place_mem_way _ _))⟩
  obtain ⟨made, hmade⟩ := exists_makeDirectories hwell hwell (.refl tree) hpath hmakeable
  have hne : path.text ≠ [] := (pathFault?_eq_none_iff.1 hfault).2.1
  have hspec := made_of_makeDirectories hne hmade
  have hsame : made = tree := by
    refine (hwell.made hmade).ext hwell hspec.workingDirectory fun location => ?_
    rw [hspec.node?]
    split
    · next hpassed => exact (hway location hpassed).symm
    · rfl
  rw [hmade, hsame]

end FileTree

end SourcePreprocessor
