import SourcePreprocessor.File.Tree
import SourcePreprocessor.Proofs.Except

/-!
# Where paths lead

A path can be followed in one tree and not in another, but wherever it can be followed it leads to
the same location: a name goes down, two dots go up, and an idle piece stays. `FileTree.place` is
that location, and it does not look at what the tree holds.

> `resolve_eq_ok`: a path that can be followed leads to its place;
> `place_join`: the place of a path seen from a directory is reached from the place of the
> directory;
> `place_child`: the names that a walk finds lead down from the place where it started.
-/

namespace SourcePreprocessor

/-! ## Pieces of a text -/

namespace Text

theorem splitOn_ne_nil (p : Char → Bool) (t : Text) : splitOn p t ≠ [] := by
  cases t with
  | nil => exact List.cons_ne_nil _ _
  | cons c t =>
    unfold splitOn
    split
    · exact List.cons_ne_nil _ _
    · split <;> exact List.cons_ne_nil _ _

/-- A separator between two texts separates their pieces. -/
theorem splitOn_append_cons {p : Char → Bool} {c : Char} (hc : p c = true) (t u : Text) :
    splitOn p (t ++ c :: u) = splitOn p t ++ splitOn p u := by
  induction t with
  | nil =>
    show splitOn p (c :: u) = [[]] ++ splitOn p u
    rw [splitOn, if_pos hc]
    rfl
  | cons d t ih =>
    rw [List.cons_append, splitOn, splitOn]
    by_cases hd : p d = true
    · rw [if_pos hd, if_pos hd, ih]
      rfl
    · rw [if_neg hd, if_neg hd, ih]
      obtain ⟨piece, pieces, hpieces⟩ := List.exists_cons_of_ne_nil (splitOn_ne_nil p t)
      rw [hpieces]
      rfl

/-- A text without a separator is one piece. -/
theorem splitOn_eq_singleton {p : Char → Bool} {t : Text} (h : ∀ c ∈ t, p c = false) :
    splitOn p t = [t] := by
  induction t with
  | nil => rfl
  | cons c t ih =>
    have hc : p c = false := h c List.mem_cons_self
    rw [splitOn, hc, ih fun d hd => h d (List.mem_cons_of_mem c hd)]
    rfl

end Text

/-! ## Places -/

/-- The name of an entry of a directory: it is not empty, holds no slash and is not one of the
pieces that mean something else. -/
def IsEntryName (name : Text) : Prop :=
  name ≠ [] ∧ '/' ∉ name ∧ name ≠ ['.'] ∧ name ≠ ['.', '.']

namespace Location

/-- Where a piece of a path leads from a location. -/
def advance (location : Location) (piece : Text) : Location :=
  if Path.isIdle piece then location
  else if piece = ['.', '.'] then location.dropLast
  else location ++ [piece]

theorem isIdle_of_isEntryName {name : Text} (h : IsEntryName name) : Path.isIdle name = false := by
  obtain ⟨hne, -, hdot, -⟩ := h
  simp [Path.isIdle, hne, hdot]

theorem advance_name (location : Location) {name : Text} (h : IsEntryName name) :
    advance location name = location ++ [name] := by
  rw [advance, isIdle_of_isEntryName h, if_neg (by decide), if_neg h.2.2.2]

/-- Names of entries lead down, one after the other. -/
theorem foldl_advance (location names : Location) (h : ∀ name ∈ names, IsEntryName name) :
    names.foldl advance location = location ++ names := by
  induction names generalizing location with
  | nil => rw [List.foldl_nil, List.append_nil]
  | cons name names ih =>
    rw [List.foldl_cons, advance_name location (h name List.mem_cons_self),
      ih _ fun other hother => h other (List.mem_cons_of_mem name hother), List.append_assoc]
    rfl

theorem isAtOrBelow_iff {directory location : Location} :
    isAtOrBelow directory location = true ↔ ∃ names, location = directory ++ names := by
  unfold isAtOrBelow
  rw [List.isPrefixOf_iff_prefix]
  exact ⟨fun ⟨names, h⟩ => ⟨names, h.symm⟩, fun ⟨names, h⟩ => ⟨names, h.symm⟩⟩

end Location

namespace FileTree

/-- The location that a path leads to wherever it can be followed. -/
def place (tree : FileTree) (path : Path) : Location :=
  (rawPieces path).foldl Location.advance (tree.start path)

/-- Places depend on the working directory alone. -/
theorem place_eq {tree tree' : FileTree} (h : tree'.workingDirectory = tree.workingDirectory)
    (path : Path) : tree'.place path = tree.place path := by
  unfold place start
  rw [h]

theorem step_eq_ok {tree : FileTree} {location found : Location} {piece : Text}
    (h : tree.step location piece = .ok found) : found = location.advance piece := by
  unfold step at h
  split at h
  · nomatch h
  · nomatch h
  · unfold Location.advance
    by_cases hidle : Path.isIdle piece = true
    · rw [if_pos hidle] at h ⊢
      exact (Except.ok.inj h).symm
    · rw [if_neg hidle] at h ⊢
      by_cases hup : piece = ['.', '.']
      · rw [if_pos hup] at h ⊢
        exact (Except.ok.inj h).symm
      · rw [if_neg hup] at h ⊢
        split at h
        · exact (Except.ok.inj h).symm
        · split at h <;> nomatch h

theorem follow_eq_ok {tree : FileTree} {location found : Location} {pieces : List Text}
    (h : tree.follow location pieces = .ok found) :
    found = pieces.foldl Location.advance location := by
  induction pieces generalizing location with
  | nil => exact (Except.ok.inj h).symm
  | cons piece pieces ih =>
    obtain ⟨next, hnext, hrest⟩ := bind_eq_ok_iff.1 h
    rw [List.foldl_cons, ← step_eq_ok hnext]
    exact ih hrest

/-- A path that can be followed leads to its place. -/
theorem resolve_eq_ok {tree : FileTree} {path : Path} {found : Location}
    (h : tree.resolve path = .ok found) : found = tree.place path := by
  unfold resolve at h
  split at h
  · nomatch h
  · exact follow_eq_ok h

theorem locate?_eq_some {tree : FileTree} {path : Path} {found : Location}
    (h : tree.locate? path = some found) : found = tree.place path :=
  resolve_eq_ok (eq_ok_of_toOption h)

/-- Empty pieces at the end of a path lead nowhere else. -/
theorem foldl_advance_dropWhile (location : Location) (pieces : List Text) :
    pieces.reverse.foldl Location.advance location =
      (pieces.dropWhile List.isEmpty).reverse.foldl Location.advance location := by
  induction pieces with
  | nil => rfl
  | cons piece pieces ih =>
    cases piece with
    | nil =>
      rw [List.reverse_cons, List.foldl_append, ih]
      rfl
    | cons c piece => rfl

section LastPiece

variable {tree : FileTree} {path : Path} {before : List Text} {last : Text}
  (hfault : pathFault? path = none)
  (hpieces : (rawPieces path).reverse.dropWhile List.isEmpty = last :: before)

include hfault hpieces

/-- The last piece of a path is looked up in the directory that the others lead to. -/
theorem splitLast_of_follow {directory : Location}
    (hfollow : tree.follow (tree.start path) before.reverse = .ok directory)
    (hdirectory : tree.node? directory = some .directory) (hlong : isTooLong last = false) :
    tree.splitLast path = .ok (directory, last) := by
  unfold splitLast
  rw [hfault, hpieces]
  dsimp only
  rw [hfollow, ok_bind, hdirectory]
  dsimp only
  rw [hlong]
  rfl

/-- When the others lead to nothing, there is nothing to look it up in. -/
theorem splitLast_of_missing
    (hmissing : tree.follow (tree.start path) before.reverse = .error .notFound ∨
      ∃ found, tree.follow (tree.start path) before.reverse = .ok found ∧
        tree.node? found = none) :
    tree.splitLast path = .error .notFound := by
  unfold splitLast
  rw [hfault, hpieces]
  dsimp only
  obtain hfollow | ⟨found, hfollow, hnode⟩ := hmissing
  · rw [hfollow]
    rfl
  · rw [hfollow, ok_bind, hnode]

end LastPiece

/-- The last piece of a path, when it is an entry of the directory before it, leads to the place. -/
theorem splitLast_eq_ok {tree : FileTree} {path : Path} {directory : Location} {last : Text}
    (h : tree.splitLast path = .ok (directory, last)) (hlast : isEntryName last = true) :
    tree.place path = directory ++ [last] := by
  have hplace : tree.place path = ((rawPieces path).reverse.dropWhile List.isEmpty).reverse.foldl
      Location.advance (tree.start path) := by
    rw [← foldl_advance_dropWhile, List.reverse_reverse]
    rfl
  unfold splitLast at h
  split at h
  · nomatch h
  · obtain ⟨-, rfl⟩ := Prod.mk.inj (Except.ok.inj h)
    nomatch hlast
  · next found before _ hpieces =>
    obtain ⟨reached, hfollow, hrest⟩ := bind_eq_ok_iff.1 h
    have hne : found ≠ [] := by
      have hhead := List.head?_dropWhile_not List.isEmpty (rawPieces path).reverse
      rw [hpieces] at hhead
      rintro rfl
      nomatch hhead
    obtain ⟨rfl, rfl⟩ : reached = directory ∧ found = last := by
      split at hrest
      · split at hrest
        · nomatch hrest
        · exact Prod.mk.inj (Except.ok.inj hrest)
      · nomatch hrest
      · nomatch hrest
    rw [hplace, hpieces, List.reverse_cons, List.foldl_append, ← follow_eq_ok hfollow]
    simp only [isEntryName, Bool.not_eq_true', Bool.or_eq_false_iff, decide_eq_false_iff_not]
      at hlast
    show Location.advance reached found = _
    rw [Location.advance, if_neg (by simp [Path.isIdle, hne, hlast.1]), if_neg hlast.2]

/-! ## Paths that are put together -/

/-- Following a path and then another one is following both, with a slash between them. -/
theorem foldl_advance_slash (location : Location) (t u : Text) :
    (Text.splitOn (· = '/') (t ++ '/' :: u)).foldl Location.advance location =
      (Text.splitOn (· = '/') u).foldl Location.advance
        ((Text.splitOn (· = '/') t).foldl Location.advance location) := by
  rw [Text.splitOn_append_cons (by decide), List.foldl_append]

/-- A path seen from a directory is followed from the place of the directory. -/
theorem place_join (tree : FileTree) (p : Path) {q : Path} (hq : q.isAbsolute = false) :
    tree.place (p.join q) = (rawPieces q).foldl Location.advance (tree.place p) := by
  unfold Path.join
  rw [if_neg (by rw [hq]; decide)]
  obtain ⟨text⟩ := p
  by_cases hempty : text = []
  · -- nothing goes before the path
    subst hempty
    show (rawPieces q).foldl Location.advance (tree.start q) = _
    unfold start
    rw [hq]
    rfl
  have hstart : ∀ more, tree.start ⟨text ++ more⟩ = tree.start ⟨text⟩ := by
    obtain ⟨c, text, rfl⟩ := List.exists_cons_of_ne_nil hempty
    exact fun more => rfl
  by_cases hslash : text.getLast? = some '/'
  · obtain ⟨before, rfl⟩ := List.getLast?_eq_some_iff.1 hslash
    rw [if_pos (by simp)]
    unfold place
    rw [hstart]
    unfold rawPieces
    dsimp only
    rw [List.append_assoc, List.singleton_append, foldl_advance_slash, foldl_advance_slash]
    rfl
  · rw [if_neg (by simp [hempty, hslash])]
    unfold place
    rw [hstart]
    unfold rawPieces
    dsimp only
    rw [foldl_advance_slash]

theorem isAbsolute_of_isEntryName {name : Text} (h : IsEntryName name) :
    (Path.mk name).isAbsolute = false := by
  unfold Path.isAbsolute
  rw [decide_eq_false_iff_not]
  intro hhead
  exact h.2.1 (List.mem_of_mem_head? hhead)

theorem rawPieces_of_isEntryName {name : Text} (h : IsEntryName name) :
    rawPieces ⟨name⟩ = [name] := by
  refine Text.splitOn_eq_singleton fun c hc => ?_
  rw [decide_eq_false_iff_not]
  rintro rfl
  exact h.2.1 hc

/-- The names that lead from a directory to an entry below it lead down from its place. -/
theorem place_child (tree : FileTree) (source : Path) {names : List Text}
    (h : ∀ name ∈ names, IsEntryName name) :
    tree.place (names.foldl Path.child source) = tree.place source ++ names := by
  induction names generalizing source with
  | nil => exact (List.append_nil _).symm
  | cons name names ih =>
    have hname := h name List.mem_cons_self
    rw [List.foldl_cons, ih _ fun other hother => h other (List.mem_cons_of_mem name hother)]
    unfold Path.child
    rw [place_join tree source (isAbsolute_of_isEntryName hname), rawPieces_of_isEntryName hname]
    show Location.advance _ name ++ names = _
    rw [Location.advance_name _ hname, List.append_assoc]
    rfl

/-- The pieces of names with slashes between them are the names. -/
theorem rawPieces_join {names : List Text} (hne : names ≠ [])
    (h : ∀ name ∈ names, IsEntryName name) : rawPieces ⟨Text.join ['/'] names⟩ = names := by
  induction names with
  | nil => exact absurd rfl hne
  | cons name names ih =>
    have hname := rawPieces_of_isEntryName (h name List.mem_cons_self)
    cases names with
    | nil => exact hname
    | cons other names =>
      have hothers := ih (List.cons_ne_nil other names) fun other hother =>
        h other (List.mem_cons_of_mem name hother)
      unfold rawPieces at hname hothers ⊢
      dsimp only [Text.join] at hname hothers ⊢
      rw [List.append_assoc, List.singleton_append, Text.splitOn_append_cons (by decide), hname,
        hothers]
      rfl

theorem isAbsolute_join {names : List Text} (h : ∀ name ∈ names, IsEntryName name) :
    (Path.mk (Text.join ['/'] names)).isAbsolute = false := by
  cases names with
  | nil => rfl
  | cons name names =>
    have hname := h name List.mem_cons_self
    -- the first character is that of the first name
    cases names with
    | nil => exact isAbsolute_of_isEntryName hname
    | cons other names =>
      obtain ⟨c, name, rfl⟩ := List.exists_cons_of_ne_nil hname.1
      have hfirst : (Path.mk (c :: name)).isAbsolute = false := isAbsolute_of_isEntryName hname
      exact hfirst

/-- The place of the output of a file that was found below a source directory. -/
theorem place_join_names (tree : FileTree) (destination : Path) {names : List Text}
    (hne : names ≠ []) (h : ∀ name ∈ names, IsEntryName name) :
    tree.place (destination.join ⟨Text.join ['/'] names⟩) = tree.place destination ++ names := by
  rw [place_join tree destination (isAbsolute_join h), rawPieces_join hne h,
    Location.foldl_advance _ _ h]

end FileTree

end SourcePreprocessor
