import Mathlib.Data.List.DropRight
import SourcePreprocessor.Pass.Line
import SourcePreprocessor.Proofs.File.Place

/-!
# The directory of a file

An include names a file from the directory of the file that it stands in. That directory is a text,
the folder of the file, and the path of the target is the folder followed by the name. Two files can
spell one directory differently, so the same name leads from them to one place by two paths.

> `Beside.enter`: from two files of one directory, a name leads to the same place, and the two paths
> that it makes are those of files of one directory again.

A path has a greatest length, and a name that is not too long after one folder can be too long
after the other. So the path from the other folder has to be one that fits. It always does when that
folder is not the longer one, and then the folders of the files that are named are not, either
(`FolderFits.enter`). The folder of a file that is named by a relative name is never the shorter one
(`folderFits_of_relative`).
-/

namespace SourcePreprocessor

/-! ## Pieces and slashes -/

namespace Text

theorem byteSize_append (t u : Text) : byteSize (t ++ u) = byteSize t + byteSize u := by
  induction t with
  | nil => exact (Nat.zero_add _).symm
  | cons c t ih => rw [List.cons_append, byteSize, byteSize, ih, Nat.add_assoc]

/-- The pieces, each with a slash after it. -/
def withSlashes (pieces : List Text) : Text := pieces.flatMap (· ++ ['/'])

theorem withSlashes_cons (piece : Text) (pieces : List Text) :
    withSlashes (piece :: pieces) = piece ++ '/' :: withSlashes pieces := by
  unfold withSlashes
  rw [List.flatMap_cons, List.append_assoc]
  rfl

theorem withSlashes_append (pieces others : List Text) :
    withSlashes (pieces ++ others) = withSlashes pieces ++ withSlashes others :=
  List.flatMap_append

theorem withSlashes_eq_nil_iff {pieces : List Text} : withSlashes pieces = [] ↔ pieces = [] := by
  cases pieces with
  | nil => exact ⟨fun _ => rfl, fun _ => rfl⟩
  | cons piece pieces =>
    rw [withSlashes_cons]
    exact ⟨fun h => by simp at h, nofun⟩

/-- Such pieces have a slash between each two of them, and one at the end. -/
theorem join_append_slash {pieces : List Text} (hne : pieces ≠ []) :
    join ['/'] pieces ++ ['/'] = withSlashes pieces := by
  induction pieces with
  | nil => exact absurd rfl hne
  | cons piece pieces ih =>
    cases pieces with
    | nil => exact (withSlashes_cons piece []).symm
    | cons other pieces =>
      rw [join, List.append_assoc, ih (List.cons_ne_nil other pieces), withSlashes_cons piece]
      simp

/-- Cutting at the slashes gives the pieces back. -/
theorem splitOn_withSlashes {pieces : List Text} (h : ∀ piece ∈ pieces, '/' ∉ piece) (t : Text) :
    splitOn (· = '/') (withSlashes pieces ++ t) = pieces ++ splitOn (· = '/') t := by
  induction pieces with
  | nil => rfl
  | cons piece pieces ih =>
    rw [List.forall_mem_cons] at h
    have hpiece : splitOn (· = '/') piece = [piece] := by
      refine splitOn_eq_singleton fun c hc => ?_
      rw [decide_eq_false_iff_not]
      rintro rfl
      exact h.1 hc
    rw [withSlashes_cons, List.append_assoc, List.cons_append, splitOn_append_cons (by decide),
      hpiece, ih h.2]
    rfl

/-- A text is pieces with slashes after them, and a last piece. -/
theorem exists_splitOn (t : Text) : ∃ init last, splitOn (· = '/') t = init ++ [last] ∧
    t = withSlashes init ++ last ∧ ∀ piece ∈ init ++ [last], '/' ∉ piece := by
  induction t with
  | nil => exact ⟨[], [], rfl, rfl, by simp⟩
  | cons c t ih =>
    obtain ⟨init, last, hsplit, ht, hslash⟩ := ih
    rw [splitOn, hsplit]
    by_cases hc : c = '/'
    · subst hc
      refine ⟨[] :: init, last, rfl, ?_, ?_⟩
      · rw [withSlashes_cons, ht]
        rfl
      · rw [List.cons_append, List.forall_mem_cons]
        exact ⟨List.not_mem_nil, hslash⟩
    · rw [if_neg (by simpa using hc)]
      cases init with
      | nil =>
        refine ⟨[], c :: last, rfl, congrArg (c :: ·) ht, ?_⟩
        have hlast : '/' ∉ last := hslash last (List.mem_singleton.2 rfl)
        rw [List.nil_append, List.forall_mem_singleton]
        simp [hlast, Ne.symm hc]
      | cons first init =>
        refine ⟨(c :: first) :: init, last, rfl, ?_, ?_⟩
        · rw [withSlashes_cons] at ht ⊢
          rw [ht]
          rfl
        · rw [List.cons_append, List.forall_mem_cons] at hslash ⊢
          refine ⟨?_, hslash.2⟩
          simp [hslash.1, Ne.symm hc]

end Text

open Text (withSlashes)

/-! ## Folders -/

/-- Pieces without the idle ones at their end. The first piece stays: it is the root, the current
directory or a name. -/
def folderPieces : List Text → List Text
  | [] => []
  | first :: rest => first :: rest.rdropWhile Path.isIdle

/-- The pieces of a folder: they hold no slash, and no idle piece can be dropped at their end. -/
structure IsFolder (pieces : List Text) : Prop where
  slash : ∀ piece ∈ pieces, '/' ∉ piece
  trimmed : folderPieces pieces = pieces

theorem folderPieces_isPrefix (pieces : List Text) : folderPieces pieces <+: pieces := by
  cases pieces with
  | nil => exact List.prefix_refl _
  | cons first rest => exact (List.prefix_cons_inj first).2 (List.rdropWhile_prefix _ rest)

theorem isFolder_folderPieces {pieces : List Text} (h : ∀ piece ∈ pieces, '/' ∉ piece) :
    IsFolder (folderPieces pieces) where
  slash piece hpiece := h piece ((folderPieces_isPrefix pieces).subset hpiece)
  trimmed := by
    cases pieces with
    | nil => rfl
    | cons first rest => exact congrArg (first :: ·) (List.rdropWhile_idempotent _ rest)

theorem rdropWhile_append (p : Text → Bool) (a b : List Text) :
    (a ++ b).rdropWhile p =
      if b.rdropWhile p = [] then a.rdropWhile p else a ++ b.rdropWhile p := by
  unfold List.rdropWhile
  rw [List.reverse_append, List.dropWhile_append]
  by_cases h : b.reverse.dropWhile p = []
  · rw [h]
    rfl
  · rw [if_neg (by simpa using h), if_neg (by simpa using h), List.reverse_append,
      List.reverse_reverse]

/-- The pieces of a folder, followed by others. Idle ones add nothing. -/
theorem folderPieces_append {pieces others : List Text} (h : IsFolder pieces) :
    folderPieces (pieces ++ others) =
      if others.rdropWhile Path.isIdle = [] then
        if pieces = [] then folderPieces others else pieces
      else pieces ++ others.rdropWhile Path.isIdle := by
  cases pieces with
  | nil =>
    rw [List.nil_append, if_pos rfl]
    split
    · rfl
    · next hothers =>
      cases others with
      | nil => exact absurd rfl hothers
      | cons first rest =>
        have hsplit := rdropWhile_append Path.isIdle [first] rest
        rw [List.singleton_append] at hsplit
        rw [folderPieces, List.nil_append, hsplit]
        split
        · next hrest =>
          rw [hsplit, if_pos hrest, List.rdropWhile_singleton] at hothers
          rw [hrest, List.rdropWhile_singleton]
          split
          · next hidle =>
            rw [if_pos hidle] at hothers
            exact absurd rfl hothers
          · rfl
        · rfl
  | cons first rest =>
    have htrimmed : rest.rdropWhile Path.isIdle = rest := (List.cons.inj h.trimmed).2
    rw [List.cons_append, folderPieces, rdropWhile_append, htrimmed, if_neg (List.cons_ne_nil _ _)]
    split
    · rfl
    · rfl

/-- The path of a directory with a slash at its end, unless it is empty. -/
def slashed (parent : Path) : Text :=
  if parent.text.isEmpty || parent.text.getLast? = some '/' then parent.text
  else parent.text ++ ['/']

theorem folder_eq_slashed (file : Path) : Scope.folder file = slashed (file.parent?.getD ⟨[]⟩) := by
  unfold Scope.folder slashed
  cases file.parent? with
  | none => rfl
  | some parent => rfl

/-- A relative name follows the folder of the file. -/
theorem includeTarget_eq (file : Path) {name : Text} (h : (Path.mk name).isAbsolute = false) :
    includeTarget file name = ⟨Scope.folder file ++ name⟩ := by
  unfold includeTarget Path.join
  rw [folder_eq_slashed, if_neg (by rw [h]; decide), slashed]
  split
  · rfl
  · rw [List.append_assoc]
    rfl

/-- An absolute name is the path itself. -/
theorem includeTarget_absolute (file : Path) {name : Text} (h : (Path.mk name).isAbsolute = true) :
    includeTarget file name = ⟨name⟩ := by
  unfold includeTarget Path.join
  rw [if_pos h]

/-- The piece that leads a path. -/
def leadPieces (p : Path) : List Text :=
  if p.isAbsolute then [[]] else if p.startsHere then [['.']] else []

/-- The directory that is built from pieces, the last of which is not idle. -/
theorem slashed_build (p : Path) {pieces : List Text} (hslash : ∀ piece ∈ pieces, '/' ∉ piece)
    (htrimmed : pieces.rdropWhile Path.isIdle = pieces) :
    slashed (Path.build p.lead pieces) = withSlashes (leadPieces p ++ pieces) := by
  by_cases hne : pieces = []
  · subst hne
    unfold Path.build Path.lead leadPieces
    cases p.isAbsolute with
    | true => rfl
    | false => cases p.startsHere <;> rfl
  · -- the text ends as its last piece does, which is not in a slash
    have hidle := (List.rdropWhile_eq_self_iff.1 htrimmed) hne
    have hjoined : (Path.build p.lead pieces).text ++ ['/'] =
        withSlashes (leadPieces p ++ pieces) := by
      rw [Text.withSlashes_append, ← Text.join_append_slash hne]
      unfold Path.build Path.lead leadPieces
      rw [if_neg (by simpa using hne)]
      cases p.isAbsolute with
      | true => rfl
      | false => cases p.startsHere <;> rfl
    obtain ⟨init, last, rfl⟩ : ∃ init last, pieces = init ++ [last] :=
      ⟨_, _, (List.dropLast_append_getLast hne).symm⟩
    rw [List.getLast_append_singleton] at hidle
    have hlast : last ≠ [] := by
      rintro rfl
      exact hidle rfl
    obtain ⟨before, c, rfl⟩ : ∃ before c, last = before ++ [c] :=
      ⟨_, _, (List.dropLast_append_getLast hlast).symm⟩
    have hc : c ≠ '/' := by
      rintro rfl
      exact hslash (before ++ ['/']) (by simp) (by simp)
    have htext : (Path.build p.lead (init ++ [before ++ [c]])).text =
        withSlashes (leadPieces p ++ init) ++ before ++ [c] := by
      refine (List.append_left_inj ['/']).1 ?_
      rw [hjoined, ← List.append_assoc, Text.withSlashes_append]
      simp [withSlashes]
    unfold slashed
    rw [if_neg, hjoined]
    rw [htext]
    simp [hc]

theorem isFolder_lead (p : Path) {pieces : List Text} (hslash : ∀ piece ∈ pieces, '/' ∉ piece)
    (htrimmed : pieces.rdropWhile Path.isIdle = pieces) : IsFolder (leadPieces p ++ pieces) := by
  unfold leadPieces
  split
  · refine ⟨?_, congrArg ([] :: ·) htrimmed⟩
    rw [List.forall_mem_append, List.forall_mem_singleton]
    exact ⟨List.not_mem_nil, hslash⟩
  · split
    · refine ⟨?_, congrArg (['.'] :: ·) htrimmed⟩
      rw [List.forall_mem_append, List.forall_mem_singleton]
      exact ⟨by decide, hslash⟩
    · refine ⟨hslash, ?_⟩
      have hnil : IsFolder [] := ⟨nofun, rfl⟩
      have hpieces := @folderPieces_append [] pieces hnil
      rw [htrimmed] at hpieces
      rw [hpieces]
      split
      · next hempty => rw [hempty]; rfl
      · rfl

theorem slash_of_mem_rawPieces (file : Path) {piece : Text} (h : piece ∈ FileTree.rawPieces file) :
    '/' ∉ piece := by
  obtain ⟨init, last, hsplit, -, hslash⟩ := Text.exists_splitOn file.text
  exact hslash piece (hsplit ▸ h)

theorem slash_of_mem_pieces (file : Path) {piece : Text} (h : piece ∈ file.pieces) :
    '/' ∉ piece := by
  unfold Path.pieces at h
  split at h
  · exact slash_of_mem_rawPieces file (List.mem_of_mem_tail h)
  · exact slash_of_mem_rawPieces file h

/-- The folder of a file consists of pieces with slashes after them. -/
theorem exists_folder (file : Path) :
    ∃ pieces, Scope.folder file = withSlashes pieces ∧ IsFolder pieces := by
  rw [folder_eq_slashed]
  unfold Path.parent?
  split
  · next last before hdrop =>
    have htrimmed := List.rdropWhile_idempotent Path.isIdle before.reverse
    have hslash : ∀ piece ∈ before.reverse.rdropWhile Path.isIdle, '/' ∉ piece := by
      intro piece hpiece
      have hbefore := (List.rdropWhile_prefix Path.isIdle before.reverse).subset hpiece
      have hsuffix : last :: before <:+ file.pieces.reverse := hdrop ▸ List.dropWhile_suffix _
      exact slash_of_mem_pieces file (List.mem_reverse.1
        (hsuffix.subset (List.mem_cons_of_mem last (List.mem_reverse.1 hbefore))))
    refine ⟨_, ?_, isFolder_lead file hslash htrimmed⟩
    rw [← slashed_build file hslash htrimmed, List.rdropWhile_reverse]
    rfl
  · split <;> exact ⟨[], rfl, nofun, rfl⟩

/-- The pieces that the folder of a file is made of, when nothing idle ends its path. -/
theorem folder_eq {file : Path} {init : List Text} {last : Text}
    (hpieces : FileTree.rawPieces file = init ++ [last]) (hlast : Path.isIdle last = false) :
    Scope.folder file = withSlashes (folderPieces init) := by
  obtain ⟨init', last', hsplit, htext, hslash⟩ := Text.exists_splitOn file.text
  obtain ⟨rfl, hsame⟩ := List.append_inj' (hsplit.symm.trans hpieces) rfl
  obtain rfl : last' = last := List.singleton_inj.1 hsame
  -- what the path leads to lies after the pieces that are kept
  have hfolder : ∀ before, file.pieces = before ++ [last'] → Scope.folder file =
      withSlashes (leadPieces file ++ before.rdropWhile Path.isIdle) := by
    intro before hbefore
    have hparent : file.parent? =
        some (Path.build file.lead (before.rdropWhile Path.isIdle)) := by
      unfold Path.parent?
      rw [hbefore, List.reverse_append, List.reverse_singleton, List.singleton_append,
        List.dropWhile_cons_of_neg (by simp [hlast])]
      rfl
    rw [folder_eq_slashed, hparent]
    refine slashed_build file (fun piece hpiece => ?_) (List.rdropWhile_idempotent _ _)
    refine slash_of_mem_pieces file (hbefore ▸ List.mem_append_left _ ?_)
    exact (List.rdropWhile_prefix Path.isIdle before).subset hpiece
  have hraw : Text.splitOn (· = '/') file.text = init' ++ [last'] := hsplit
  cases init' with
  | nil =>
    have habsolute : file.isAbsolute = false := by
      unfold Path.isAbsolute
      rw [decide_eq_false_iff_not, htext]
      intro hhead
      exact hslash last' (List.mem_singleton.2 rfl) (List.mem_of_mem_head? hhead)
    have hhere : file.startsHere = false := by
      unfold Path.startsHere
      rw [decide_eq_false_iff_not, hraw]
      intro hhead
      obtain rfl := Option.some.inj hhead
      nomatch hlast
    rw [hfolder [] (by unfold Path.pieces; rw [habsolute, hhere, hraw]; rfl)]
    unfold leadPieces
    rw [habsolute, hhere]
    rfl
  | cons first rest =>
    have hfirst : '/' ∉ first := hslash first List.mem_cons_self
    have habsolute : file.isAbsolute = decide (first = []) := by
      unfold Path.isAbsolute
      rw [htext, Text.withSlashes_cons]
      cases first with
      | nil => rfl
      | cons c first =>
        have hc : c ≠ '/' := fun h => hfirst (h ▸ List.mem_cons_self)
        simp [hc]
    have hhere : file.startsHere = decide (first = ['.']) := by
      unfold Path.startsHere
      rw [hraw]
      simp
    by_cases hempty : first = []
    · subst hempty
      rw [hfolder rest (by unfold Path.pieces; rw [habsolute, hraw]; rfl)]
      unfold leadPieces
      rw [habsolute]
      rfl
    · by_cases hdot : first = ['.']
      · subst hdot
        rw [hfolder rest (by unfold Path.pieces; rw [habsolute, hhere, hraw]; rfl)]
        unfold leadPieces
        rw [habsolute, hhere]
        rfl
      · rw [hfolder (first :: rest) (by
          unfold Path.pieces
          rw [habsolute, hhere, hraw, decide_eq_false hempty, decide_eq_false hdot]
          rfl)]
        unfold leadPieces
        rw [habsolute, hhere, decide_eq_false hempty, decide_eq_false hdot]
        -- a name that leads the path is kept anyway
        have hidle : Path.isIdle first = false := by simp [Path.isIdle, hempty, hdot]
        have hsplit := rdropWhile_append Path.isIdle [first] rest
        rw [List.singleton_append] at hsplit
        show withSlashes ((first :: rest).rdropWhile Path.isIdle) = _
        rw [hsplit, folderPieces, List.rdropWhile_singleton, hidle]
        split
        · next hrest => rw [hrest]; rfl
        · rfl

/-! ## Following a folder -/

namespace FileTree

/-- The location of the directory of a file. A file without a folder is in the working directory. -/
def directory? (tree : FileTree) (file : Path) : Option Location :=
  if (Scope.folder file).isEmpty then some tree.workingDirectory
  else tree.locate? ⟨Scope.folder file⟩

variable {tree : FileTree}

theorem follow_append (location : Location) (pieces others : List Text) :
    tree.follow location (pieces ++ others) =
      tree.follow location pieces >>= fun reached => tree.follow reached others := by
  induction pieces generalizing location with
  | nil => rfl
  | cons piece pieces ih =>
    show (tree.step location piece >>= fun next => tree.follow next (pieces ++ others)) = _
    rw [funext ih, ← bind_assoc]
    rfl

/-- An idle piece stays in a directory. -/
theorem step_idle {location found : Location} {piece : Text} (hidle : Path.isIdle piece = true)
    (h : tree.step location piece = .ok found) :
    found = location ∧ tree.node? location = some .directory := by
  unfold step at h
  split at h
  · nomatch h
  · nomatch h
  · next hnode =>
    rw [if_pos hidle] at h
    exact ⟨(Except.ok.inj h).symm, hnode⟩

theorem follow_rdropWhile {location found : Location} {pieces : List Text}
    (h : tree.follow location pieces = .ok found) :
    tree.follow location (pieces.rdropWhile Path.isIdle) = .ok found := by
  induction pieces using List.reverseRecOn with
  | nil => exact h
  | append_singleton pieces piece ih =>
    rw [List.rdropWhile_concat]
    split
    · next hidle =>
      rw [follow_append] at h
      obtain ⟨reached, hreached, hlast⟩ := bind_eq_ok_iff.1 h
      obtain ⟨next, hnext, hdone⟩ := bind_eq_ok_iff.1 hlast
      obtain rfl := Except.ok.inj hdone
      obtain ⟨rfl, -⟩ := step_idle hidle hnext
      exact ih hreached
    · exact h

/-- Pieces lead where the pieces of the folder lead. -/
theorem follow_folderPieces {location found : Location} {pieces : List Text}
    (h : tree.follow location pieces = .ok found) :
    tree.follow location (folderPieces pieces) = .ok found := by
  cases pieces with
  | nil => exact h
  | cons first rest =>
    obtain ⟨next, hnext, hrest⟩ := bind_eq_ok_iff.1 h
    exact bind_eq_ok_iff.2 ⟨next, hnext, follow_rdropWhile hrest⟩

theorem pathFault?_eq_none_iff {path : Path} : pathFault? path = none ↔
    '\x00' ∉ path.text ∧ path.text ≠ [] ∧ Text.byteSize path.text ≤ 4095 := by
  unfold pathFault?
  by_cases hnul : '\x00' ∈ path.text
  · simp [hnul]
  · by_cases hempty : path.text = []
    · simp [hempty]
    · by_cases hlong : 4095 < Text.byteSize path.text
      · simp [hnul, hempty, hlong]
      · simp [hnul, hempty, hlong, Nat.le_of_not_lt hlong]

theorem resolve_eq_ok_iff {path : Path} {found : Location} : tree.resolve path = .ok found ↔
    pathFault? path = none ∧ tree.follow (tree.start path) (rawPieces path) = .ok found := by
  unfold resolve
  cases pathFault? path with
  | none => exact ⟨fun h => ⟨rfl, h⟩, fun h => h.2⟩
  | some fault => exact ⟨nofun, fun h => nomatch h.1⟩

/-- What leads a path decides where following it starts. -/
theorem start_append {t : Text} (hne : t ≠ []) (u : Text) :
    tree.start ⟨t ++ u⟩ = tree.start ⟨t⟩ := by
  cases t with
  | nil => exact absurd rfl hne
  | cons c t => rfl

theorem rawPieces_withSlashes {pieces : List Text} (h : ∀ piece ∈ pieces, '/' ∉ piece) (t : Text) :
    rawPieces ⟨withSlashes pieces ++ t⟩ = pieces ++ rawPieces ⟨t⟩ := Text.splitOn_withSlashes h t

/-- The folder of a file leads to its directory. -/
theorem follow_folder {file : Path} {directory : Location}
    (h : tree.directory? file = some directory) {pieces : List Text}
    (hfolder : Scope.folder file = withSlashes pieces) (hne : pieces ≠ [])
    (hslash : ∀ piece ∈ pieces, '/' ∉ piece) :
    pathFault? ⟨Scope.folder file⟩ = none ∧ tree.node? directory = some .directory ∧
      tree.follow (tree.start ⟨Scope.folder file⟩) pieces = .ok directory := by
  have hempty : Scope.folder file ≠ [] := by
    rw [hfolder]
    exact fun h => hne (Text.withSlashes_eq_nil_iff.1 h)
  unfold directory? at h
  rw [if_neg (by simpa using hempty)] at h
  obtain ⟨hfault, hfollow⟩ := resolve_eq_ok_iff.1 (eq_ok_of_toOption h)
  have hpieces : rawPieces ⟨Scope.folder file⟩ = pieces ++ [[]] := by
    have hraw := rawPieces_withSlashes hslash []
    rw [List.append_nil, ← hfolder] at hraw
    exact hraw
  rw [hpieces, follow_append] at hfollow
  obtain ⟨reached, hreached, hlast⟩ := bind_eq_ok_iff.1 hfollow
  obtain ⟨next, hnext, hdone⟩ := bind_eq_ok_iff.1 hlast
  obtain rfl := Except.ok.inj hdone
  obtain ⟨rfl, hnode⟩ := step_idle rfl hnext
  exact ⟨hfault, hnode, hreached⟩

/-- What follows the folder of a file is followed from its directory. -/
theorem follow_of_directory {file : Path} {directory : Location}
    (h : tree.directory? file = some directory) {pieces : List Text}
    (hfolder : Scope.folder file = withSlashes pieces) (hslash : ∀ piece ∈ pieces, '/' ∉ piece)
    {name : Text} (hname : (Path.mk name).isAbsolute = false) (others : List Text) :
    tree.follow (tree.start ⟨Scope.folder file ++ name⟩) (pieces ++ others) =
      tree.follow directory others := by
  by_cases hne : pieces = []
  · subst hne
    have hempty : Scope.folder file = [] := hfolder
    unfold directory? at h
    rw [hempty] at h ⊢
    obtain rfl := Option.some.inj h
    unfold start
    rw [List.nil_append, List.nil_append, hname]
    rfl
  · obtain ⟨-, -, hreached⟩ := follow_folder h hfolder hne hslash
    have hempty : Scope.folder file ≠ [] := by
      rw [hfolder]
      exact fun h => hne (Text.withSlashes_eq_nil_iff.1 h)
    rw [start_append hempty, follow_append, hreached]
    rfl

/-- A path that a text is read from ends in the name of a file, and what goes before it leads to the
directory of the file. -/
theorem directory?_of_readText {path : Path} {t : Text} (h : tree.readText path = .ok t) :
    ∃ init last reached, rawPieces path = init ++ [last] ∧ Path.isIdle last = false ∧
      tree.follow (tree.start path) init = .ok reached ∧
      tree.resolve path = tree.step reached last ∧ tree.directory? path = some reached := by
  obtain ⟨content, hread, -⟩ := bind_eq_ok_iff.1 h
  obtain ⟨location, hresolve, hfile⟩ := bind_eq_ok_iff.1 hread
  obtain ⟨hfault, hfollow⟩ := resolve_eq_ok_iff.1 hresolve
  obtain ⟨init, last, hsplit, htext, hslash⟩ := Text.exists_splitOn path.text
  have hpieces : rawPieces path = init ++ [last] := hsplit
  rw [hpieces, follow_append] at hfollow
  obtain ⟨reached, hreached, hlast⟩ := bind_eq_ok_iff.1 hfollow
  obtain ⟨next, hnext, hdone⟩ := bind_eq_ok_iff.1 hlast
  obtain rfl := Except.ok.inj hdone
  have hnode : tree.node? reached = some .directory := by
    unfold step at hnext
    split at hnext
    · nomatch hnext
    · nomatch hnext
    · assumption
  -- an idle piece would lead to the directory and not to a file
  have hidle : Path.isIdle last = false := by
    refine Bool.eq_false_iff.2 fun hidle => ?_
    obtain ⟨rfl, -⟩ := step_idle hidle hnext
    rw [hnode] at hfile
    nomatch hfile
  refine ⟨init, last, reached, hpieces, hidle, hreached, hresolve.trans hnext.symm, ?_⟩
  have hfolder := folder_eq hpieces hidle
  have hinit : ∀ piece ∈ init, '/' ∉ piece := (List.forall_mem_append.1 hslash).1
  unfold directory?
  by_cases hempty : init = []
  · subst hempty
    rw [hfolder]
    obtain rfl := Except.ok.inj hreached
    have habsolute : path.isAbsolute = false := by
      unfold Path.isAbsolute
      rw [decide_eq_false_iff_not, htext]
      intro hhead
      exact hslash last (List.mem_singleton.2 rfl) (List.mem_of_mem_head? hhead)
    unfold start
    rw [habsolute]
    rfl
  · -- the folder leads the path, so what is right about the path is right about the folder
    obtain ⟨rest, hrest⟩ : Scope.folder path <+: path.text := by
      obtain ⟨dropped, hdropped⟩ := folderPieces_isPrefix init
      refine ⟨withSlashes dropped ++ last, ?_⟩
      rw [hfolder, ← List.append_assoc, ← Text.withSlashes_append, hdropped, ← htext]
    have hne : Scope.folder path ≠ [] := by
      rw [hfolder]
      intro hnil
      obtain ⟨first, others, rfl⟩ := List.exists_cons_of_ne_nil hempty
      nomatch Text.withSlashes_eq_nil_iff.1 hnil
    have hfine : pathFault? ⟨Scope.folder path⟩ = none := by
      obtain ⟨hnul, -, hlength⟩ := pathFault?_eq_none_iff.1 hfault
      rw [← hrest] at hnul hlength
      rw [Text.byteSize_append] at hlength
      exact pathFault?_eq_none_iff.2
        ⟨fun hmem => hnul (List.mem_append_left rest hmem), hne, by dsimp only; omega⟩
    have hstart : tree.start ⟨Scope.folder path⟩ = tree.start path := by
      rw [← start_append hne rest, hrest]
    have hraw : rawPieces ⟨Scope.folder path⟩ = folderPieces init ++ [[]] := by
      have hsplit' := rawPieces_withSlashes (isFolder_folderPieces hinit).slash []
      rw [List.append_nil, ← hfolder] at hsplit'
      exact hsplit'
    have hdirectory : tree.resolve ⟨Scope.folder path⟩ = .ok reached := by
      refine resolve_eq_ok_iff.2 ⟨hfine, ?_⟩
      rw [hraw, hstart, follow_append, follow_folderPieces hreached]
      show (tree.step reached [] >>= _) = _
      unfold step
      rw [hnode]
      rfl
    rw [if_neg (by simpa using hne), locate?, hdirectory]
    rfl

end FileTree

/-! ## Lengths of folders -/

/-- A folder that is not longer than another. The working directory has the shortest name, but what
is named from it with a dot gets a folder of two bytes, while named from the root it stays there. -/
structure NotLonger (pieces others : List Text) : Prop where
  length : Text.byteSize (withSlashes pieces) ≤ Text.byteSize (withSlashes others)
  root : pieces = [] → others ≠ [[]]

theorem byteSize_withSlashes_cons (piece : Text) (pieces : List Text) :
    Text.byteSize (withSlashes (piece :: pieces)) =
      Text.byteSize piece + 1 + Text.byteSize (withSlashes pieces) := by
  rw [Text.withSlashes_cons, Text.byteSize_append, Text.byteSize, Nat.add_assoc]
  rfl

theorem byteSize_pos {t : Text} (h : t ≠ []) : 0 < Text.byteSize t := by
  obtain ⟨c, u, rfl⟩ := List.exists_cons_of_ne_nil h
  have hc := Char.utf8Size_pos c
  rw [Text.byteSize]
  omega

/-- Every folder but the working directory and the root takes two characters. -/
theorem two_le_byteSize {pieces : List Text} (hne : pieces ≠ []) (hroot : pieces ≠ [[]]) :
    2 ≤ Text.byteSize (withSlashes pieces) := by
  obtain ⟨first, rest, rfl⟩ := List.exists_cons_of_ne_nil hne
  rw [byteSize_withSlashes_cons]
  by_cases hfirst : first = []
  · subst hfirst
    have hrest : rest ≠ [] := fun h => hroot (by rw [h])
    obtain ⟨second, rest, rfl⟩ := List.exists_cons_of_ne_nil hrest
    rw [byteSize_withSlashes_cons]
    omega
  · have hpos := byteSize_pos hfirst
    omega

/-- Idle pieces that do not start at the root make no folder, or that of the current directory. -/
theorem folderPieces_of_idle {pieces : List Text} (hidle : pieces.rdropWhile Path.isIdle = [])
    (hhead : pieces.head? ≠ some []) :
    folderPieces pieces = [] ∨ folderPieces pieces = [['.']] := by
  cases pieces with
  | nil => exact .inl rfl
  | cons first rest =>
    right
    have hall := List.rdropWhile_eq_nil_iff.1 hidle
    rw [List.forall_mem_cons] at hall
    have hfirst : first = ['.'] := by
      have hne : first ≠ [] := fun h => hhead (by rw [h]; rfl)
      simpa [Path.isIdle, hne] using hall.1
    rw [folderPieces, List.rdropWhile_eq_nil_iff.2 hall.2, hfirst]

theorem NotLonger.append {pieces others name : List Text} (h : NotLonger pieces others)
    (hpieces : IsFolder pieces) (hothers : IsFolder others) (hhead : name.head? ≠ some []) :
    NotLonger (folderPieces (pieces ++ name)) (folderPieces (others ++ name)) := by
  rw [folderPieces_append hpieces, folderPieces_append hothers]
  by_cases hidle : name.rdropWhile Path.isIdle = []
  · rw [if_pos hidle, if_pos hidle]
    by_cases hnone : pieces = []
    · rw [if_pos hnone]
      by_cases hboth : others = []
      · rw [if_pos hboth]
        refine ⟨Nat.le_refl _, fun hnil hroot => ?_⟩
        rw [hnil] at hroot
        nomatch hroot
      · rw [if_neg hboth]
        rcases folderPieces_of_idle hidle hhead with hnil | hdot
        · rw [hnil]
          exact ⟨Nat.zero_le _, fun _ => h.root hnone⟩
        · rw [hdot]
          exact ⟨two_le_byteSize hboth (h.root hnone), nofun⟩
    · rw [if_neg hnone]
      by_cases hsome : others = []
      · refine ⟨?_, fun hnil => absurd hnil hnone⟩
        have hlength := h.length
        rw [hsome] at hlength
        exact Nat.le_trans hlength (Nat.zero_le _)
      · rw [if_neg hsome]
        exact h
  · rw [if_neg hidle, if_neg hidle]
    constructor
    · have hlength := h.length
      rw [Text.withSlashes_append, Text.withSlashes_append, Text.byteSize_append,
        Text.byteSize_append]
      omega
    · intro hnil
      exact absurd (List.append_eq_nil_iff.1 hnil).2 hidle

/-- What a folder leads to by a name that does not start at the root is not shorter. -/
theorem notLonger_append {pieces name : List Text} (hpieces : IsFolder pieces)
    (hhead : name.head? ≠ some []) : NotLonger pieces (folderPieces (pieces ++ name)) := by
  rw [folderPieces_append hpieces]
  by_cases hidle : name.rdropWhile Path.isIdle = []
  · rw [if_pos hidle]
    by_cases hnone : pieces = []
    · rw [if_pos hnone, hnone]
      refine ⟨Nat.zero_le _, fun _ hroot => ?_⟩
      rcases folderPieces_of_idle hidle hhead with hnil | hdot
      · rw [hnil] at hroot
        nomatch hroot
      · rw [hdot] at hroot
        simp at hroot
    · rw [if_neg hnone]
      exact ⟨Nat.le_refl _, fun h => absurd h hnone⟩
  · rw [if_neg hidle]
    constructor
    · rw [Text.withSlashes_append, Text.byteSize_append]
      exact Nat.le_add_right _ _
    · intro hnone hroot
      obtain ⟨dropped, hdropped⟩ := List.rdropWhile_prefix Path.isIdle name
      rw [hnone, List.nil_append] at hroot
      rw [← hdropped, hroot] at hhead
      exact absurd rfl hhead

/-! ## Files of one directory -/

namespace FileTree

variable {tree : FileTree}

/-- Both files are in one directory. -/
def Beside (tree : FileTree) (file other : Path) : Prop :=
  ∃ location, tree.directory? file = some location ∧ tree.directory? other = some location

/-- The folder of the second file is not longer than that of the first one, so that whatever is
named from the first one can be named from the second one, too. -/
structure FolderFits (file other : Path) : Prop where
  length : Text.byteSize (Scope.folder other) ≤ Text.byteSize (Scope.folder file)
  root : Scope.folder other = [] → Scope.folder file ≠ ['/']

theorem withSlashes_eq_slash_iff {pieces : List Text} :
    withSlashes pieces = ['/'] ↔ pieces = [[]] := by
  constructor
  · intro h
    cases pieces with
    | nil => nomatch h
    | cons first rest =>
      rw [Text.withSlashes_cons] at h
      cases first with
      | nil => rw [Text.withSlashes_eq_nil_iff.1 (List.cons.inj h).2]
      | cons c first => simp at h
  · rintro rfl
    rfl

/-- The lengths of folders, by their pieces. -/
theorem notLonger_iff {file other : Path} {pieces others : List Text}
    (hfile : Scope.folder file = withSlashes pieces)
    (hother : Scope.folder other = withSlashes others) :
    NotLonger others pieces ↔ FolderFits file other := by
  constructor
  · intro h
    constructor
    · rw [hfile, hother]
      exact h.length
    · rw [hfile, hother, Text.withSlashes_eq_nil_iff, ne_eq, withSlashes_eq_slash_iff]
      exact h.root
  · intro h
    obtain ⟨hlength, hroot⟩ := h
    rw [hfile, hother] at hlength
    rw [hfile, hother, Text.withSlashes_eq_nil_iff, ne_eq, withSlashes_eq_slash_iff] at hroot
    exact ⟨hlength, hroot⟩

theorem byteSize_le_of_readText {path : Path} {t : Text} (h : tree.readText path = .ok t) :
    Text.byteSize path.text ≤ 4095 := by
  obtain ⟨content, hcontent, -⟩ := bind_eq_ok_iff.1 h
  obtain ⟨location, hresolve, -⟩ := bind_eq_ok_iff.1 hcontent
  exact (pathFault?_eq_none_iff.1 (resolve_eq_ok_iff.1 hresolve).1).2.2

theorem readText_congr {path other : Path} (h : tree.resolve other = tree.resolve path) :
    tree.readText other = tree.readText path := by
  unfold readText read
  rw [h]

theorem canonical_congr {path other : Path} {t : Text}
    (h : tree.resolve other = tree.resolve path) (hread : tree.readText path = .ok t) :
    tree.canonical other = tree.canonical path := by
  obtain ⟨content, hcontent, -⟩ := bind_eq_ok_iff.1 hread
  obtain ⟨location, hresolve, -⟩ := bind_eq_ok_iff.1 hcontent
  unfold canonical locate?
  rw [h, hresolve]
  rfl

/-- A relative name does not start with an empty piece before a slash. -/
theorem head?_ne_of_relative {init : List Text} {last : Text}
    (h : (Path.mk (withSlashes init ++ last)).isAbsolute = false) : init.head? ≠ some [] := by
  cases init with
  | nil => nofun
  | cons first rest =>
    intro hhead
    obtain rfl : first = [] := Option.some.inj hhead
    rw [Text.withSlashes_cons] at h
    nomatch h

section Named

variable {file : Path} {location : Location} {pieces init : List Text} {last t : Text}

/-- A file that another one names: its directory is reached from that of the other one, and its
folder is that of the other one and what the name adds. -/
theorem directory?_named (hdirectory : tree.directory? file = some location)
    (hfolder : Scope.folder file = withSlashes pieces) (hpieces : IsFolder pieces)
    (hslash : ∀ piece ∈ init ++ [last], '/' ∉ piece)
    (hname : (Path.mk (withSlashes init ++ last)).isAbsolute = false)
    (hread : tree.readText ⟨Scope.folder file ++ (withSlashes init ++ last)⟩ = .ok t) :
    Path.isIdle last = false ∧
    (∃ reached, tree.follow location init = .ok reached ∧
      tree.directory? ⟨Scope.folder file ++ (withSlashes init ++ last)⟩ = some reached) ∧
    Scope.folder ⟨Scope.folder file ++ (withSlashes init ++ last)⟩ =
      withSlashes (folderPieces (pieces ++ init)) := by
  have hlast : rawPieces ⟨last⟩ = [last] := by
    refine Text.splitOn_eq_singleton fun c hc => ?_
    rw [decide_eq_false_iff_not]
    rintro rfl
    exact hslash last (List.mem_append_right init (List.mem_singleton.2 rfl)) hc
  have hraw : rawPieces ⟨Scope.folder file ++ (withSlashes init ++ last)⟩ =
      (pieces ++ init) ++ [last] := by
    have hinit : ∀ piece ∈ pieces ++ init, '/' ∉ piece :=
      List.forall_mem_append.2 ⟨hpieces.slash, (List.forall_mem_append.1 hslash).1⟩
    rw [hfolder, ← List.append_assoc, ← Text.withSlashes_append, rawPieces_withSlashes hinit, hlast]
  obtain ⟨init', last', reached, hraw', hidle, hreached, -, hfound⟩ := directory?_of_readText hread
  obtain ⟨rfl, hsame⟩ := List.append_inj' (hraw'.symm.trans hraw) rfl
  obtain rfl : last' = last := List.singleton_inj.1 hsame
  rw [follow_of_directory hdirectory hfolder hpieces.slash hname] at hreached
  exact ⟨hidle, ⟨reached, hreached, hfound⟩, folder_eq hraw hidle⟩

end Named

/-- From two files of one directory, a relative name leads to one place, if the path from the second
one fits, and the files that it names are again beside each other. -/
theorem Beside.enter {file other : Path} (h : tree.Beside file other) {name t : Text}
    (hname : (Path.mk name).isAbsolute = false)
    (hread : tree.readText (includeTarget file name) = .ok t)
    (hfits : Text.byteSize (includeTarget other name).text ≤ 4095) :
    tree.resolve (includeTarget other name) = tree.resolve (includeTarget file name) ∧
      tree.Beside (includeTarget file name) (includeTarget other name) := by
  rw [includeTarget_eq file hname] at hread ⊢
  rw [includeTarget_eq other hname] at hfits ⊢
  obtain ⟨location, hfile, hother⟩ := h
  obtain ⟨pieces, hfolder, hpieces⟩ := exists_folder file
  obtain ⟨others, hfolder', hothers⟩ := exists_folder other
  obtain ⟨init, last, -, rfl, hslash⟩ := Text.exists_splitOn name
  obtain ⟨hidle, ⟨reached, hreached, hdirectory⟩, -⟩ :=
    directory?_named hfile hfolder hpieces hslash hname hread
  -- the other path is as right as the first one
  obtain ⟨content, hcontent, -⟩ := bind_eq_ok_iff.1 hread
  obtain ⟨found, hfound, -⟩ := bind_eq_ok_iff.1 hcontent
  obtain ⟨hfault, hfollow⟩ := resolve_eq_ok_iff.1 hfound
  obtain ⟨hnul, -, -⟩ := pathFault?_eq_none_iff.1 hfault
  have hfine : pathFault? ⟨Scope.folder other ++ (withSlashes init ++ last)⟩ = none := by
    refine pathFault?_eq_none_iff.2 ⟨?_, ?_, hfits⟩
    · intro hmem
      rcases List.mem_append.1 hmem with hmem | hmem
      · have hne : others ≠ [] := by
          rintro rfl
          rw [hfolder'] at hmem
          nomatch hmem
        obtain ⟨hfault', -, -⟩ := follow_folder hother hfolder' hne hothers.slash
        exact (pathFault?_eq_none_iff.1 hfault').1 hmem
      · exact hnul (List.mem_append_right _ hmem)
    · intro hnil
      have hlast := (List.append_eq_nil_iff.1 (List.append_eq_nil_iff.1 hnil).2).2
      rw [hlast] at hidle
      nomatch hidle
  have hresolve : tree.resolve ⟨Scope.folder other ++ (withSlashes init ++ last)⟩ = .ok found := by
    refine resolve_eq_ok_iff.2 ⟨hfine, ?_⟩
    have hraw : rawPieces ⟨Scope.folder file ++ (withSlashes init ++ last)⟩ =
        pieces ++ rawPieces ⟨withSlashes init ++ last⟩ := by
      rw [hfolder]
      exact rawPieces_withSlashes hpieces.slash _
    have hraw' : rawPieces ⟨Scope.folder other ++ (withSlashes init ++ last)⟩ =
        others ++ rawPieces ⟨withSlashes init ++ last⟩ := by
      rw [hfolder']
      exact rawPieces_withSlashes hothers.slash _
    rw [hraw, follow_of_directory hfile hfolder hpieces.slash hname] at hfollow
    rw [hraw', follow_of_directory hother hfolder' hothers.slash hname]
    exact hfollow
  have hsame := hresolve.trans hfound.symm
  refine ⟨hsame, ?_⟩
  obtain ⟨-, ⟨reached', hreached', hdirectory'⟩, -⟩ :=
    directory?_named hother hfolder' hothers hslash hname ((readText_congr hsame).trans hread)
  obtain rfl : reached = reached' := Except.ok.inj (hreached.symm.trans hreached')
  exact ⟨reached, hdirectory, hdirectory'⟩

/-- A folder that is not the longer one makes paths that fit, and the folders of the files that are
named are not longer, either. -/
theorem FolderFits.enter {file other : Path} (h : FolderFits file other)
    (hbeside : tree.Beside file other) {name t : Text} (hname : (Path.mk name).isAbsolute = false)
    (hread : tree.readText (includeTarget file name) = .ok t) :
    Text.byteSize (includeTarget other name).text ≤ 4095 ∧
      FolderFits (includeTarget file name) (includeTarget other name) := by
  have hfits : Text.byteSize (includeTarget other name).text ≤ 4095 := by
    have hlength := byteSize_le_of_readText hread
    have hle := h.length
    rw [includeTarget_eq file hname] at hlength
    rw [includeTarget_eq other hname]
    dsimp only at hlength ⊢
    rw [Text.byteSize_append] at hlength ⊢
    omega
  refine ⟨hfits, ?_⟩
  have hsame := (hbeside.enter hname hread hfits).1
  have hread' := (readText_congr hsame).trans hread
  rw [includeTarget_eq file hname] at hread ⊢
  rw [includeTarget_eq other hname] at hread' ⊢
  obtain ⟨location, hfile, hother⟩ := hbeside
  obtain ⟨pieces, hfolder, hpieces⟩ := exists_folder file
  obtain ⟨others, hfolder', hothers⟩ := exists_folder other
  obtain ⟨init, last, -, rfl, hslash⟩ := Text.exists_splitOn name
  obtain ⟨-, -, hfolders⟩ := directory?_named hfile hfolder hpieces hslash hname hread
  obtain ⟨-, -, hfolders'⟩ := directory?_named hother hfolder' hothers hslash hname hread'
  refine (notLonger_iff hfolders hfolders').1 ?_
  exact ((notLonger_iff hfolder hfolder').2 h).append hothers hpieces (head?_ne_of_relative hname)

/-- A file that is named by a relative name does not spell the directory of the file that names it
shorter. -/
theorem folderFits_of_relative {file : Path} {name t : Text} {location : Location}
    (hname : (Path.mk name).isAbsolute = false)
    (hread : tree.readText (includeTarget file name) = .ok t)
    (hfile : tree.directory? file = some location) : FolderFits (includeTarget file name) file := by
  obtain ⟨pieces, hfolder, hpieces⟩ := exists_folder file
  rw [includeTarget_eq file hname] at hread ⊢
  obtain ⟨init, last, -, rfl, hslash⟩ := Text.exists_splitOn name
  obtain ⟨-, -, hfolders⟩ := directory?_named hfile hfolder hpieces hslash hname hread
  exact (notLonger_iff hfolders hfolder).1 (notLonger_append hpieces (head?_ne_of_relative hname))

/-- A file that can be read lies beside those of its directory. -/
theorem beside_of_directory?_eq {file other : Path} {t : Text} (hread : tree.readText file = .ok t)
    (h : tree.directory? file = tree.directory? other) : tree.Beside file other := by
  obtain ⟨-, -, location, -, -, -, -, hlocation⟩ := directory?_of_readText hread
  exact ⟨location, hlocation, h.symm.trans hlocation⟩

/-- The second file can stand in for the first one: it is the first one, or is beside it in a folder
that is not longer. -/
def StandsFor (tree : FileTree) (file other : Path) : Prop :=
  other = file ∨ tree.Beside file other ∧ FolderFits file other

/-- Whatever can be read from a file can be named from one that stands in for it. What it names then
stands in for what was read. -/
theorem StandsFor.enter {file other : Path} (h : tree.StandsFor file other) {name t : Text}
    (hread : tree.readText (includeTarget file name) = .ok t) :
    Text.byteSize (includeTarget other name).text ≤ 4095 ∧
      tree.StandsFor (includeTarget file name) (includeTarget other name) := by
  have hlength := byteSize_le_of_readText hread
  cases habsolute : (Path.mk name).isAbsolute with
  | true =>
    rw [includeTarget_absolute file habsolute] at hlength ⊢
    rw [includeTarget_absolute other habsolute]
    exact ⟨hlength, .inl rfl⟩
  | false =>
    rcases h with hsame | ⟨hbeside, hfolder⟩
    · rw [hsame]
      exact ⟨hlength, .inl rfl⟩
    · obtain ⟨hfits, hnext⟩ := hfolder.enter hbeside habsolute hread
      exact ⟨hfits, .inr ⟨(hbeside.enter habsolute hread hfits).2, hnext⟩⟩

end FileTree

end SourcePreprocessor
