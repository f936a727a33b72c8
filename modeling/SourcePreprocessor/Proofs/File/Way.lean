import SourcePreprocessor.Proofs.File.WellFormed

/-!
# The way of a path

On its way a path comes to one location after the other, from where it starts to its place. Which
locations these are does not depend on what a tree holds; whether the path can be followed to a
directory is only the question whether all of them are directories there:

> `isDirectory_iff`: a path leads to a directory exactly when directories stand all along its way.

Idle pieces go nowhere, so the way is that of the others, the strides. The parent of a path has the
same strides without the last (`strides_parent`), and its text is the start of the text of the path
(`parent_isPrefix`).
-/

namespace SourcePreprocessor

open Text (withSlashes)

/-! ## Strides -/

namespace FileTree

/-- The pieces of a path that lead somewhere else. -/
def strides (path : Path) : List Text := (rawPieces path).filter fun piece => !Path.isIdle piece

theorem rawPieces_eq (path : Path) : rawPieces path = leadPieces path ++ path.pieces := by
  unfold leadPieces Path.pieces
  cases habsolute : path.isAbsolute with
  | true =>
    obtain ⟨text⟩ := path
    cases text with
    | nil => nomatch habsolute
    | cons c text =>
      obtain rfl : c = '/' := by simpa [Path.isAbsolute] using habsolute
      rfl
  | false =>
    cases hhere : path.startsHere with
    | false => rfl
    | true =>
      have hhead : (Text.splitOn (· = '/') path.text).head? = some ['.'] := of_decide_eq_true hhere
      obtain ⟨rest, hrest⟩ := List.head?_eq_some_iff.1 hhead
      unfold rawPieces
      rw [hrest]
      rfl

/-- What leads a path is no stride. -/
theorem strides_eq_pieces (path : Path) :
    strides path = path.pieces.filter fun piece => !Path.isIdle piece := by
  unfold strides
  rw [rawPieces_eq, List.filter_append]
  unfold leadPieces
  split
  · rfl
  · split <;> rfl

/-- A slash at the end of a path makes no stride. -/
theorem strides_slashed (path : Path) : strides ⟨slashed path⟩ = strides path := by
  unfold slashed
  split
  · rfl
  · show (Text.splitOn (· = '/') (path.text ++ '/' :: [])).filter _ = _
    rw [Text.splitOn_append_cons (by decide), List.filter_append]
    exact List.append_nil _

theorem filter_rdropWhile (pieces : List Text) :
    (pieces.rdropWhile Path.isIdle).filter (fun piece => !Path.isIdle piece) =
      pieces.filter fun piece => !Path.isIdle piece := by
  induction pieces using List.reverseRecOn with
  | nil => rfl
  | append_singleton pieces piece ih =>
    rw [List.rdropWhile_concat]
    split
    · next hidle => rw [ih, List.filter_append, List.filter_singleton, hidle]; simp
    · rfl

/-! ## Parents -/

/-- A path with a parent has strides, and is that of the pieces before the last of them; or it has
none, and its parent is empty. -/
theorem parent?_cases {path parent : Path} (h : path.parent? = some parent) :
    (∃ before last idle, path.pieces = before ++ last :: idle ∧ Path.isIdle last = false ∧
      (∀ piece ∈ idle, Path.isIdle piece = true) ∧
      parent = Path.build path.lead (before.rdropWhile Path.isIdle)) ∨
    (strides path = [] ∧ parent = ⟨[]⟩ ∧ path.isAbsolute = false ∧ path.text ≠ []) := by
  unfold Path.parent? at h
  split at h
  · next last before hdrop =>
    left
    have hsplit : path.pieces.reverse.takeWhile Path.isIdle ++ last :: before =
        path.pieces.reverse := by rw [← hdrop, List.takeWhile_append_dropWhile]
    refine ⟨before.reverse, last, (path.pieces.reverse.takeWhile Path.isIdle).reverse, ?_, ?_, ?_,
      ?_⟩
    · have hpieces := congrArg List.reverse hsplit
      simp only [List.reverse_append, List.reverse_cons, List.reverse_reverse, List.append_assoc,
        List.singleton_append] at hpieces
      exact hpieces.symm
    · have hhead := List.head?_dropWhile_not Path.isIdle path.pieces.reverse
      rw [hdrop] at hhead
      simpa using hhead
    · exact fun piece hpiece => List.mem_takeWhile_imp (List.mem_reverse.1 hpiece)
    · rw [← Option.some.inj h, List.rdropWhile_reverse]
  · next hdrop =>
    right
    split at h
    · nomatch h
    · next hpath =>
      rw [Bool.or_eq_true, not_or, Bool.not_eq_true, List.isEmpty_iff] at hpath
      refine ⟨?_, (Option.some.inj h).symm, hpath.1, hpath.2⟩
      rw [strides_eq_pieces, List.filter_eq_nil_iff]
      intro piece hpiece
      have hidle := List.dropWhile_eq_nil_iff.1 hdrop piece (List.mem_reverse.2 hpiece)
      simp [hidle]

/-- The directory that is built from the pieces before a stride, with a slash at its end. -/
theorem slashed_parent {path : Path} {before rest : List Text} (h : path.pieces = before ++ rest) :
    slashed (Path.build path.lead (before.rdropWhile Path.isIdle)) =
        withSlashes (leadPieces path ++ before.rdropWhile Path.isIdle) ∧
      ∀ piece ∈ leadPieces path ++ before.rdropWhile Path.isIdle, '/' ∉ piece := by
  have hslash : ∀ piece ∈ before.rdropWhile Path.isIdle, '/' ∉ piece := by
    intro piece hpiece
    refine slash_of_mem_pieces path (h ▸ List.mem_append_left _ ?_)
    exact (List.rdropWhile_prefix _ before).subset hpiece
  have htrimmed := List.rdropWhile_idempotent Path.isIdle before
  exact ⟨slashed_build path hslash htrimmed, (isFolder_lead path hslash htrimmed).slash⟩

theorem filter_leadPieces (path : Path) (pieces : List Text) :
    (leadPieces path ++ pieces).filter (fun piece => !Path.isIdle piece) =
      pieces.filter fun piece => !Path.isIdle piece := by
  rw [List.filter_append]
  unfold leadPieces
  split
  · rfl
  · split <;> rfl

/-- The parent of a path lacks the last stride. -/
theorem strides_parent {path parent : Path} (h : path.parent? = some parent) :
    strides parent = (strides path).dropLast := by
  obtain ⟨before, last, idle, hpieces, hlast, hidle, rfl⟩ | ⟨hnone, rfl, -⟩ := parent?_cases h
  · have hidle' : idle.filter (fun piece => !Path.isIdle piece) = [] :=
      List.filter_eq_nil_iff.2 fun piece hpiece => by simp [hidle piece hpiece]
    have hown : strides path = before.filter (fun piece => !Path.isIdle piece) ++ [last] := by
      rw [strides_eq_pieces, hpieces, List.filter_append, List.filter_cons_of_pos (by simp [hlast]),
        hidle']
    obtain ⟨hslashed, hslash⟩ := slashed_parent hpieces
    have hraw := rawPieces_withSlashes hslash []
    rw [List.append_nil] at hraw
    rw [hown, List.dropLast_concat, ← strides_slashed, hslashed, strides, hraw, List.filter_append,
      filter_leadPieces, filter_rdropWhile]
    exact List.append_nil _
  · rw [hnone]
    rfl

theorem isPrefix_slashed (path : Path) : path.text <+: slashed path := by
  unfold slashed
  split
  · exact List.prefix_refl _
  · exact List.prefix_append _ _

/-- The text of the parent is the start of the text of the path. -/
theorem parent_isPrefix {path parent : Path} (h : path.parent? = some parent) :
    parent.text <+: path.text := by
  obtain ⟨before, last, idle, hpieces, -, -, rfl⟩ | ⟨-, rfl, -⟩ := parent?_cases h
  · refine (isPrefix_slashed _).trans ?_
    obtain ⟨init, final, hraw, htext, -⟩ := Text.exists_splitOn path.text
    -- the pieces of the parent all have a slash after them in the path
    have hinit : leadPieces path ++ before.rdropWhile Path.isIdle <+: init := by
      have hall : leadPieces path ++ before <+: init := by
        have hsplit : leadPieces path ++ before ++ last :: idle = init ++ [final] := by
          rw [List.append_assoc, ← hpieces, ← rawPieces_eq]
          exact hraw
        have hprefix : leadPieces path ++ before <+: init ++ [final] := ⟨_, hsplit⟩
        rw [List.prefix_concat_iff] at hprefix
        refine hprefix.resolve_left fun heq => ?_
        rw [heq] at hsplit
        exact absurd (List.append_right_eq_self.1 hsplit) (List.cons_ne_nil _ _)
      exact ((List.prefix_append_right_inj _).2 (List.rdropWhile_prefix _ before)).trans hall
    obtain ⟨more, rfl⟩ := hinit
    rw [(slashed_parent hpieces).1, htext, Text.withSlashes_append (_ ++ _), List.append_assoc]
    exact List.prefix_append _ _
  · exact List.nil_prefix

/-- The text of the parent is shorter. -/
theorem length_parent {path parent : Path} (h : path.parent? = some parent) :
    parent.text.length < path.text.length := by
  have hprefix := parent_isPrefix h
  refine Nat.lt_of_le_of_ne hprefix.length_le fun hlength => ?_
  have hsame : parent.text = path.text := hprefix.eq_of_length hlength
  have hstrides := strides_parent h
  obtain ⟨before, last, idle, hpieces, hlast, -, -⟩ | ⟨-, rfl, -, hne⟩ := parent?_cases h
  · -- a path with a stride is not its own parent
    have hmem : last ∈ strides path := by
      rw [strides_eq_pieces, hpieces]
      exact List.mem_filter.2 ⟨by simp, by simp [hlast]⟩
    have hsame' : strides parent = strides path := by
      unfold strides rawPieces
      rw [hsame]
    rw [hsame'] at hstrides
    have hcount := congrArg List.length hstrides
    rw [List.length_dropLast] at hcount
    have hpos := List.length_pos_of_mem hmem
    omega
  · exact hne hsame.symm

/-- The parent starts where the path does. -/
theorem start_parent (tree : FileTree) {path parent : Path} (h : path.parent? = some parent) :
    tree.start parent = tree.start path := by
  obtain ⟨before, last, idle, hpieces, -, -, rfl⟩ | ⟨-, rfl, habsolute, -⟩ := parent?_cases h
  · have hprefix := parent_isPrefix h
    generalize hparent : Path.build path.lead (before.rdropWhile Path.isIdle) = parent
      at h hprefix ⊢
    by_cases hempty : parent.text = []
    · -- nothing leads a path whose parent is empty
      have habsolute : path.isAbsolute = false := by
        rw [Bool.eq_false_iff]
        intro habsolute
        rw [← hparent, Path.build, Path.lead, if_pos habsolute] at hempty
        split at hempty
        · nomatch hempty
        · split at hempty <;> simp at hempty
      unfold start
      rw [habsolute, Path.isAbsolute, hempty]
      rfl
    · obtain ⟨more, hmore⟩ := hprefix
      have hpath : path = ⟨parent.text ++ more⟩ := by rw [hmore]
      rw [hpath]
      exact (start_append hempty more).symm
  · unfold start
    rw [habsolute]
    rfl

/-- A parent that is not empty is right and no longer than its path. -/
theorem pathFault?_parent {path parent : Path} (h : path.parent? = some parent)
    (hfault : pathFault? path = none) (hne : parent.text ≠ []) : pathFault? parent = none := by
  obtain ⟨hnul, -, hlong⟩ := pathFault?_eq_none_iff.1 hfault
  obtain ⟨more, hmore⟩ := parent_isPrefix h
  rw [← hmore] at hnul hlong
  rw [Text.byteSize_append] at hlong
  exact pathFault?_eq_none_iff.2 ⟨fun hmem => hnul (List.mem_append_left _ hmem), hne, by omega⟩

/-- A path without components starts neither at the root nor with a dot, and all its pieces go
nowhere. -/
theorem idle_of_components_eq_nil {path : Path} (h : path.components = []) :
    path.isAbsolute = false ∧ path.startsHere = false ∧
      ∀ piece ∈ path.pieces, Path.isIdle piece = true := by
  unfold Path.components at h
  rw [List.append_eq_nil_iff] at h
  obtain ⟨hlead, hpieces⟩ := h
  have habsolute : path.isAbsolute = false := by
    rw [Bool.eq_false_iff]
    intro habsolute
    rw [if_pos habsolute] at hlead
    nomatch hlead
  refine ⟨habsolute, ?_, fun piece hpiece => ?_⟩
  · rw [Bool.eq_false_iff]
    intro hhere
    rw [if_neg (by simp [habsolute]), if_pos hhere] at hlead
    nomatch hlead
  · have hnone := List.filterMap_eq_nil_iff.1 hpieces piece hpiece
    unfold Path.component? at hnone
    split at hnone
    · assumption
    · split at hnone <;> nomatch hnone

/-- A path without components is empty. -/
theorem components_eq_nil_iff {path : Path} : path.components = [] ↔ path.text = [] := by
  constructor
  · intro h
    obtain ⟨habsolute, hhere, hidle⟩ := idle_of_components_eq_nil h
    -- the first piece would be idle, and lead the path
    obtain ⟨init, last, hsplit, htext, -⟩ := Text.exists_splitOn path.text
    have hraw : path.pieces = init ++ [last] := by
      unfold Path.pieces
      rw [habsolute, hhere]
      exact hsplit
    rw [hraw] at hidle
    have hstart : ∀ first rest, init ++ [last] = first :: rest → first = [] := by
      intro first rest hfirst
      have hdot : first ≠ ['.'] := by
        rintro rfl
        unfold Path.startsHere at hhere
        rw [hsplit, hfirst] at hhere
        nomatch hhere
      simpa [Path.isIdle, hdot] using hidle first (hfirst ▸ List.mem_cons_self)
    cases init with
    | nil => rw [htext, hstart last [] rfl]; rfl
    | cons first init =>
      obtain rfl := hstart first _ rfl
      unfold Path.isAbsolute at habsolute
      rw [htext, Text.withSlashes_cons] at habsolute
      simp at habsolute
  · intro h
    obtain ⟨text⟩ := path
    subst h
    rfl

/-! ## Ways -/

/-- The locations that a path comes to, from where it starts to its place. -/
def way (tree : FileTree) (path : Path) : List Location :=
  (strides path).scanl Location.advance (tree.start path)

theorem advance_idle (location : Location) {piece : Text} (h : Path.isIdle piece = true) :
    location.advance piece = location := if_pos h

/-- Idle pieces lead nowhere else. -/
theorem mem_scanl_filter {location found : Location} {pieces : List Text} :
    found ∈ (pieces.filter fun piece => !Path.isIdle piece).scanl Location.advance location ↔
      found ∈ pieces.scanl Location.advance location := by
  induction pieces generalizing location with
  | nil => rfl
  | cons piece pieces ih =>
    rw [List.scanl_cons, List.mem_cons]
    by_cases hidle : Path.isIdle piece = true
    · rw [List.filter_cons_of_neg (by simp [hidle]), ih, advance_idle location hidle]
      refine ⟨.inr, ?_⟩
      rintro (rfl | h)
      · cases pieces <;> simp
      · exact h
    · rw [List.filter_cons_of_pos (by simp [hidle]), List.scanl_cons, List.mem_cons, ih]

theorem foldl_filter_idle (location : Location) (pieces : List Text) :
    (pieces.filter fun piece => !Path.isIdle piece).foldl Location.advance location =
      pieces.foldl Location.advance location := by
  induction pieces generalizing location with
  | nil => rfl
  | cons piece pieces ih =>
    rw [List.foldl_cons]
    by_cases hidle : Path.isIdle piece = true
    · rw [List.filter_cons_of_neg (by simp [hidle]), ih, advance_idle location hidle]
    · rw [List.filter_cons_of_pos (by simp [hidle]), List.foldl_cons, ih]

theorem mem_scanl_concat {location found : Location} {pieces : List Text} {piece : Text} :
    found ∈ (pieces ++ [piece]).scanl Location.advance location ↔
      found ∈ pieces.scanl Location.advance location ∨
        found = (pieces.foldl Location.advance location).advance piece := by
  induction pieces generalizing location with
  | nil => simp
  | cons first pieces ih =>
    rw [List.cons_append, List.scanl_cons, List.scanl_cons, List.mem_cons, List.mem_cons, ih,
      List.foldl_cons, or_assoc]

theorem foldl_mem_scanl (location : Location) (pieces : List Text) :
    pieces.foldl Location.advance location ∈ pieces.scanl Location.advance location := by
  induction pieces generalizing location with
  | nil => exact List.mem_singleton_self _
  | cons piece pieces ih =>
    rw [List.foldl_cons, List.scanl_cons]
    exact List.mem_cons_of_mem _ (ih _)

theorem mem_scanl_start (location : Location) (pieces : List Text) :
    location ∈ pieces.scanl Location.advance location := by
  cases pieces <;> simp

section Ways

variable {tree : FileTree} {path : Path}

theorem place_eq_strides (tree : FileTree) (path : Path) :
    tree.place path = (strides path).foldl Location.advance (tree.start path) :=
  (foldl_filter_idle _ _).symm

theorem start_mem_way (tree : FileTree) (path : Path) : tree.start path ∈ tree.way path :=
  mem_scanl_start _ _

theorem place_mem_way (tree : FileTree) (path : Path) : tree.place path ∈ tree.way path := by
  rw [place_eq_strides]
  exact foldl_mem_scanl _ _

theorem way_eq {other : FileTree} (h : other.workingDirectory = tree.workingDirectory)
    (path : Path) : other.way path = tree.way path := by
  unfold way start
  rw [h]

/-- A path comes by its parent, and then to its place. -/
theorem mem_way_iff {parent : Path} (h : path.parent? = some parent) {location : Location} :
    location ∈ tree.way path ↔ location ∈ tree.way parent ∨ location = tree.place path := by
  unfold way
  rw [start_parent tree h, strides_parent h, place_eq_strides]
  obtain hnil | ⟨before, last, hstrides⟩ := List.eq_nil_or_concat (strides path)
  · rw [hnil]
    simp
  · rw [hstrides, List.concat_eq_append, mem_scanl_concat, List.dropLast_concat, List.foldl_append]
    rfl

/-- From a directory a piece leads to a directory that is there. -/
theorem step_of_directory {location : Location} {piece : Text}
    (h : tree.node? location = some .directory)
    (hnext : tree.node? (location.advance piece) = some .directory) :
    tree.step location piece = .ok (location.advance piece) := by
  unfold step
  rw [h]
  dsimp only
  unfold Location.advance at hnext ⊢
  by_cases hidle : Path.isIdle piece = true
  · rw [if_pos hidle, if_pos hidle]
  · rw [if_neg hidle] at hnext
    rw [if_neg hidle, if_neg hidle]
    by_cases hup : piece = ['.', '.']
    · rw [if_pos hup, if_pos hup]
    · rw [if_neg hup] at hnext
      rw [if_neg hup, if_neg hup, if_pos (by rw [hnext]; rfl)]

theorem node?_of_step {location found : Location} {piece : Text}
    (h : tree.step location piece = .ok found) : tree.node? location = some .directory := by
  unfold step at h
  split at h
  · nomatch h
  · nomatch h
  · assumption

/-- Pieces lead to a directory exactly when directories stand all along their way. -/
theorem follow_directory_iff {location : Location} {pieces : List Text} :
    (∃ found, tree.follow location pieces = .ok found ∧ tree.node? found = some .directory) ↔
      ∀ passed ∈ pieces.scanl Location.advance location, tree.node? passed = some .directory := by
  induction pieces generalizing location with
  | nil =>
    rw [List.scanl_nil, List.forall_mem_singleton]
    refine ⟨fun ⟨found, hfound, hnode⟩ => ?_, fun h => ⟨location, rfl, h⟩⟩
    obtain rfl := Except.ok.inj hfound
    exact hnode
  | cons piece pieces ih =>
    rw [List.scanl_cons, List.forall_mem_cons, ← ih]
    constructor
    · rintro ⟨found, hfollow, hnode⟩
      obtain ⟨next, hstep, hrest⟩ := bind_eq_ok_iff.1 hfollow
      obtain rfl := step_eq_ok hstep
      exact ⟨node?_of_step hstep, found, hrest, hnode⟩
    · rintro ⟨hnode, found, hrest, hfound⟩
      have hnext := ih.1 ⟨found, hrest, hfound⟩ _ (mem_scanl_start _ _)
      exact ⟨found, bind_eq_ok_iff.2 ⟨_, step_of_directory hnode hnext, hrest⟩, hfound⟩

/-- Pieces that can be followed lead through directories. -/
theorem node?_of_follow {location found : Location} {pieces : List Text}
    (h : tree.follow location pieces = .ok found) :
    ∀ passed ∈ pieces.scanl Location.advance location,
      passed = found ∨ tree.node? passed = some .directory := by
  induction pieces generalizing location with
  | nil =>
    rw [List.scanl_nil, List.forall_mem_singleton]
    exact .inl (Except.ok.inj h)
  | cons piece pieces ih =>
    obtain ⟨next, hstep, hrest⟩ := bind_eq_ok_iff.1 h
    rw [List.scanl_cons, List.forall_mem_cons, ← step_eq_ok hstep]
    exact ⟨.inr (node?_of_step hstep), ih hrest⟩

/-- A path that can be followed leads through directories to its place. -/
theorem node?_of_resolve (h : tree.resolve path = .ok (tree.place path)) :
    ∀ location ∈ tree.way path,
      location = tree.place path ∨ tree.node? location = some .directory := by
  intro location hlocation
  exact node?_of_follow (resolve_eq_ok_iff.1 h).2 location (mem_scanl_filter.1 hlocation)

/-- A path leads to a directory exactly when directories stand all along its way. -/
theorem isDirectory_iff : tree.isDirectory path = true ↔
    pathFault? path = none ∧ ∀ location ∈ tree.way path, tree.node? location = some .directory := by
  have hfollow : (∃ found, tree.follow (tree.start path) (rawPieces path) = .ok found ∧
      tree.node? found = some .directory) ↔
        ∀ location ∈ tree.way path, tree.node? location = some .directory := by
    rw [follow_directory_iff]
    unfold way strides
    simp only [mem_scanl_filter]
  rw [← hfollow]
  unfold isDirectory locate?
  rw [Option.any_eq_true]
  constructor
  · rintro ⟨found, hfound, hnode⟩
    obtain ⟨hfault, hrest⟩ := resolve_eq_ok_iff.1 (eq_ok_of_toOption hfound)
    exact ⟨hfault, found, hrest, of_decide_eq_true hnode⟩
  · rintro ⟨hfault, found, hrest, hnode⟩
    refine ⟨found, ?_, decide_eq_true hnode⟩
    rw [resolve_eq_ok_iff.2 ⟨hfault, hrest⟩]
    rfl

end Ways

/-! ## Paths that are put together -/

theorem join_eq_slashed (p : Path) {q : Path} (hq : q.isAbsolute = false) :
    p.join q = ⟨slashed p ++ q.text⟩ := by
  unfold Path.join slashed
  rw [if_neg (by simp [hq])]
  split
  · rfl
  · rw [List.append_assoc]
    rfl

/-- A path seen from a directory has the strides of the directory and its own. -/
theorem strides_join (p : Path) {q : Path} (hq : q.isAbsolute = false) :
    strides (p.join q) = strides p ++ strides q := by
  rw [join_eq_slashed p hq, ← strides_slashed p]
  unfold strides rawPieces
  by_cases hempty : slashed p = []
  · rw [hempty]
    rfl
  · obtain ⟨before, hbefore⟩ : ∃ before, slashed p = before ++ ['/'] := by
      unfold slashed at hempty ⊢
      split
      · next hends =>
        rw [if_pos hends] at hempty
        obtain hnil | hslash := Bool.or_eq_true_iff.1 hends
        · exact absurd (List.isEmpty_iff.1 hnil) hempty
        · exact List.getLast?_eq_some_iff.1 (of_decide_eq_true hslash)
      · exact ⟨_, rfl⟩
    rw [hbefore, List.append_assoc]
    show (Text.splitOn _ (before ++ '/' :: q.text)).filter _ =
      (Text.splitOn _ (before ++ '/' :: [])).filter _ ++ _
    rw [Text.splitOn_append_cons (by decide), Text.splitOn_append_cons (by decide),
      List.filter_append, List.filter_append]
    exact congrArg (· ++ _) (List.append_nil _).symm

theorem start_join (tree : FileTree) (p : Path) {q : Path} (hq : q.isAbsolute = false) :
    tree.start (p.join q) = tree.start p := by
  rw [join_eq_slashed p hq]
  by_cases hempty : p.text = []
  · have hp : p.isAbsolute = false := by
      unfold Path.isAbsolute
      rw [hempty]
      rfl
    have hslashed : slashed p = [] := by
      unfold slashed
      rw [hempty]
      rfl
    unfold start
    rw [hslashed, hp]
    show (if q.isAbsolute then _ else _) = _
    rw [hq]
  · obtain ⟨more, hmore⟩ := isPrefix_slashed p
    rw [← hmore, List.append_assoc]
    exact start_append hempty _

theorem strides_join_names {names : List Text} (h : ∀ name ∈ names, IsEntryName name) :
    strides ⟨Text.join ['/'] names⟩ = names := by
  cases names with
  | nil => rfl
  | cons name names =>
    unfold strides
    rw [rawPieces_join (List.cons_ne_nil _ _) h, List.filter_eq_self]
    exact fun piece hpiece => by simp [Location.isIdle_of_isEntryName (h piece hpiece)]

/-- On the way down by names, each of them leads one further. -/
theorem mem_scanl_names {location found : Location} {names : List Text}
    (h : ∀ name ∈ names, IsEntryName name)
    (hfound : found ∈ names.scanl Location.advance location) :
    ∃ taken, taken <+: names ∧ found = location ++ taken := by
  induction names generalizing location with
  | nil =>
    rw [List.scanl_nil, List.mem_singleton] at hfound
    exact ⟨[], List.prefix_refl _, by rw [hfound, List.append_nil]⟩
  | cons name names ih =>
    rw [List.forall_mem_cons] at h
    rw [List.scanl_cons, List.mem_cons, Location.advance_name _ h.1] at hfound
    obtain rfl | hfound := hfound
    · exact ⟨[], List.nil_prefix, (List.append_nil _).symm⟩
    · obtain ⟨taken, htaken, rfl⟩ := ih h.2 hfound
      exact ⟨name :: taken, List.cons_prefix_cons.2 ⟨rfl, htaken⟩, by rw [List.append_assoc]; rfl⟩

/-- The way of a path seen from a directory goes by the directory, and then down by the names. -/
theorem mem_way_join_names (tree : FileTree) (directory : Path) {names : List Text}
    (h : ∀ name ∈ names, IsEntryName name) {location : Location}
    (hlocation : location ∈ tree.way (directory.join ⟨Text.join ['/'] names⟩)) :
    location ∈ tree.way directory ∨
      ∃ taken, taken <+: names ∧ location = tree.place directory ++ taken := by
  unfold way at hlocation
  rw [strides_join directory (isAbsolute_join h), start_join tree directory (isAbsolute_join h),
    strides_join_names h, List.scanl_append, List.mem_append] at hlocation
  obtain hbefore | hafter := hlocation
  · exact .inl hbefore
  · rw [place_eq_strides]
    exact .inr (mem_scanl_names h (List.mem_of_mem_tail hafter))

/-- So does the way of an entry that is named piece by piece. -/
theorem mem_way_child (tree : FileTree) (source : Path) {names : List Text}
    (h : ∀ name ∈ names, IsEntryName name) {location : Location}
    (hlocation : location ∈ tree.way (names.foldl Path.child source)) :
    location ∈ tree.way source ∨
      ∃ taken, taken <+: names ∧ location = tree.place source ++ taken := by
  induction names generalizing source with
  | nil => exact .inl hlocation
  | cons name names ih =>
    rw [List.forall_mem_cons] at h
    have hname : ∀ other ∈ [name], IsEntryName other := List.forall_mem_singleton.2 h.1
    obtain hbefore | ⟨taken, htaken, rfl⟩ := ih (source.child name) h.2 hlocation
    · obtain hbefore | ⟨taken, htaken, rfl⟩ := mem_way_join_names tree source hname hbefore
      · exact .inl hbefore
      · exact .inr ⟨taken, htaken.trans (List.cons_prefix_cons.2 ⟨rfl, List.nil_prefix⟩), rfl⟩
    · refine .inr ⟨name :: taken, List.cons_prefix_cons.2 ⟨rfl, htaken⟩, ?_⟩
      have hplace := place_join_names tree source (List.cons_ne_nil name []) hname
      rw [show source.child name = source.join ⟨Text.join ['/'] [name]⟩ from rfl, hplace,
        List.append_assoc]
      rfl

end FileTree

end SourcePreprocessor
