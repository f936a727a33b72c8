import Mathlib.Data.List.Sort
import SourcePreprocessor.Proofs.File.Directory
import SourcePreprocessor.Proofs.Run.OutputTree

/-!
# Trees of a file system

A list of entries can be any list. The trees that stand for a file system list every location once
and in order, and hold what is in a directory only together with the directory (`WellFormed`).

> `WellFormed.ext`: two such trees with the same working directory and the same node everywhere are
> equal, the order of their entries included;
> `wellFormed_write`, `wellFormed_makeDirectories`, `wellFormed_removeDirectory`: every change of a
> tree leaves such a tree, also when it fails halfway.
-/

namespace SourcePreprocessor

/-! ## The order of locations -/

theorem Text.swap_compare (t u : Text) : (compare t u).swap = compare u t := by
  induction t generalizing u with
  | nil => cases u <;> rfl
  | cons a t ih =>
    cases u with
    | nil => rfl
    | cons b u => rw [compare, compare, Ordering.swap_then, ih, Nat.compare_swap]

theorem Text.compare_trans {t u v : Text} (h : compare t u = .lt) (h' : compare u v = .lt) :
    compare t v = .lt := by
  induction t generalizing u v with
  | nil =>
    cases v with
    | nil => cases u <;> simp [compare] at h'
    | cons c v => rfl
  | cons a t ih =>
    cases u with
    | nil => simp [compare] at h
    | cons b u =>
      cases v with
      | nil => simp [compare] at h'
      | cons c v =>
        simp only [compare, Ordering.then_eq_lt, Nat.compare_eq_lt, Nat.compare_eq_eq] at h h' ⊢
        grind

namespace Location

theorem swap_compare (l m : Location) : (compare l m).swap = compare m l := by
  induction l generalizing m with
  | nil => cases m <;> rfl
  | cons a l ih =>
    cases m with
    | nil => rfl
    | cons b m => rw [compare, compare, Ordering.swap_then, ih, Text.swap_compare]

theorem compare_trans {l m n : Location} (h : compare l m = .lt) (h' : compare m n = .lt) :
    compare l n = .lt := by
  induction l generalizing m n with
  | nil =>
    cases n with
    | nil => cases m <;> simp [compare] at h'
    | cons c n => rfl
  | cons a l ih =>
    cases m with
    | nil => simp [compare] at h
    | cons b m =>
      cases n with
      | nil => simp [compare] at h'
      | cons c n =>
        simp only [compare, Ordering.then_eq_lt, Text.compare_eq_eq_iff] at h h' ⊢
        grind [Text.compare_trans]

theorem isAtOrBelow_append (directory names : Location) :
    isAtOrBelow directory (directory ++ names) = true := isAtOrBelow_iff.2 ⟨names, rfl⟩

end Location

/-- Whether an entry comes before another one. -/
def Precedes (entry other : Location × Node) : Prop := Location.compare entry.1 other.1 = .lt

instance (entry other : Location × Node) : Decidable (Precedes entry other) :=
  inferInstanceAs (Decidable (Location.compare entry.1 other.1 = .lt))

theorem Precedes.trans {a b c : Location × Node} (h : Precedes a b) (h' : Precedes b c) :
    Precedes a c := Location.compare_trans h h'

theorem Precedes.ne {a b : Location × Node} (h : Precedes a b) : a.1 ≠ b.1 := by
  intro heq
  unfold Precedes at h
  rw [Location.compare_eq_eq_iff.2 heq] at h
  nomatch h

instance : Std.Irrefl Precedes := ⟨fun _ h => h.ne rfl⟩

instance : Std.Antisymm Precedes := ⟨fun _ _ h h' => absurd rfl (h.trans h').ne⟩

namespace FileTree

/-! ## Trees with one entry for each location -/

/-- The tree could be that of a file system: its entries stand in order, their names are names of
entries and not too long, and each of them stands in a directory. -/
structure WellFormed (tree : FileTree) : Prop where
  sorted : tree.entries.Pairwise Precedes
  names : tree.ProperNames
  short : ∀ entry ∈ tree.entries, ∀ name ∈ entry.1, isTooLong name = false
  parents : ∀ entry ∈ tree.entries, entry.1 ≠ [] ∧ tree.node? entry.1.dropLast = some .directory

theorem wellFormed_iff (tree : FileTree) : tree.WellFormed ↔
    tree.entries.Pairwise Precedes ∧ tree.ProperNames ∧
    (∀ entry ∈ tree.entries, ∀ name ∈ entry.1, isTooLong name = false) ∧
    ∀ entry ∈ tree.entries, entry.1 ≠ [] ∧ tree.node? entry.1.dropLast = some .directory :=
  ⟨fun h => ⟨h.sorted, h.names, h.short, h.parents⟩, fun h => ⟨h.1, h.2.1, h.2.2.1, h.2.2.2⟩⟩

instance : DecidablePred WellFormed := fun tree => decidable_of_iff _ (wellFormed_iff tree).symm

theorem lookup_eq_some_of_mem {entries : List (Location × Node)} (h : entries.Pairwise Precedes)
    {location : Location} {node : Node} (hmem : (location, node) ∈ entries) :
    entries.lookup location = some node := by
  induction entries with
  | nil => nomatch hmem
  | cons entry entries ih =>
    obtain ⟨key, value⟩ := entry
    rw [List.pairwise_cons] at h
    rw [lookup_cons_eq_ite]
    obtain heq | hmem := List.mem_cons.1 hmem
    · obtain ⟨rfl, rfl⟩ := Prod.mk.inj heq
      exact if_pos rfl
    · rw [if_neg (h.1 _ hmem).ne.symm, ih h.2 hmem]

namespace WellFormed

variable {tree other : FileTree}

theorem mem_entries_iff (h : tree.WellFormed) {location : Location} {node : Node} :
    (location, node) ∈ tree.entries ↔ location ≠ [] ∧ tree.node? location = some node := by
  constructor
  · intro hmem
    have hne := (h.parents _ hmem).1
    refine ⟨hne, ?_⟩
    rw [node?, if_neg (by simpa using hne), lookup_eq_some_of_mem h.sorted hmem]
  · rintro ⟨hne, hnode⟩
    rw [node?, if_neg (by simpa using hne)] at hnode
    obtain ⟨before, after, hentries, -⟩ := List.lookup_eq_some_iff.1 hnode
    rw [hentries]
    exact List.mem_append_right before List.mem_cons_self

/-- Trees of a file system with the same nodes are equal. -/
theorem ext (h : tree.WellFormed) (h' : other.WellFormed)
    (hwd : tree.workingDirectory = other.workingDirectory)
    (hnode : ∀ location, tree.node? location = other.node? location) : tree = other := by
  have hentries : tree.entries = other.entries := by
    refine h.sorted.eq_of_mem_iff h'.sorted fun entry => ?_
    obtain ⟨location, node⟩ := entry
    rw [h.mem_entries_iff, h'.mem_entries_iff, hnode]
  obtain ⟨entries, wd⟩ := tree
  obtain ⟨entries', wd'⟩ := other
  obtain rfl : entries = entries' := hentries
  obtain rfl : wd = wd' := hwd
  rfl

/-- What is there stands in a directory. -/
theorem node?_dropLast (h : tree.WellFormed) {location : Location} {node : Node}
    (hnode : tree.node? location = some node) :
    tree.node? location.dropLast = some .directory := by
  cases location with
  | nil => rfl
  | cons name location =>
    exact (h.parents _ (h.mem_entries_iff.2 ⟨List.cons_ne_nil _ _, hnode⟩)).2

/-- All that leads to something is a directory. -/
theorem node?_of_below (h : tree.WellFormed) {location rest : Location} {node : Node}
    (hne : rest ≠ []) (hnode : tree.node? (location ++ rest) = some node) :
    tree.node? location = some .directory := by
  induction rest using List.reverseRecOn generalizing node with
  | nil => exact absurd rfl hne
  | append_singleton rest name ih =>
    have hparent := h.node?_dropLast hnode
    rw [← List.append_assoc, List.dropLast_concat] at hparent
    by_cases hrest : rest = []
    · rw [hrest, List.append_nil] at hparent
      exact hparent
    · exact ih hrest hparent

/-- A file that can be read lies in its directory. -/
theorem directory?_eq_dropLast (h : tree.WellFormed) {path : Path} {t : Text} {location : Location}
    (hread : tree.readText path = .ok t) (hplace : tree.locate? path = some location) :
    tree.directory? path = some location.dropLast := by
  obtain ⟨-, last, reached, -, hidle, -, hresolve, hdirectory⟩ := directory?_of_readText hread
  obtain ⟨content, hcontent, -⟩ := bind_eq_ok_iff.1 hread
  obtain ⟨found, hfound, hfile⟩ := bind_eq_ok_iff.1 hcontent
  have hsame : tree.resolve path = .ok location := eq_ok_of_toOption hplace
  obtain rfl : found = location := Except.ok.inj (hfound.symm.trans hsame)
  have hstep : tree.step reached last = .ok found := hresolve.symm.trans hsame
  rw [hdirectory]
  unfold step at hstep
  split at hstep
  · nomatch hstep
  · nomatch hstep
  · next hnode =>
    rw [if_neg (by rw [hidle]; decide)] at hstep
    split at hstep
    · -- the directory of a directory is no file
      obtain rfl := Except.ok.inj hstep
      rw [h.node?_dropLast hnode] at hfile
      nomatch hfile
    · split at hstep
      · obtain rfl := Except.ok.inj hstep
        rw [List.dropLast_concat]
      · split at hstep <;> nomatch hstep

theorem isEntryName (h : tree.WellFormed) {location : Location} {node : Node}
    (hnode : tree.node? location = some node) :
    ∀ name ∈ location, IsEntryName name ∧ isTooLong name = false := by
  cases location with
  | nil => nofun
  | cons first location =>
    have hmem := h.mem_entries_iff.2 ⟨List.cons_ne_nil _ _, hnode⟩
    exact fun name hname => ⟨h.names _ hmem name hname, h.short _ hmem name hname⟩

end WellFormed

/-! ## Changes -/

theorem mem_insertEntry {location : Location} {node : Node} {entries : List (Location × Node)}
    {entry : Location × Node} (h : entry ∈ insertEntry location node entries) :
    entry = (location, node) ∨ entry ∈ entries := by
  induction entries with
  | nil => exact .inl (List.mem_singleton.1 h)
  | cons first entries ih =>
    unfold insertEntry at h
    split at h
    · exact List.mem_cons.1 h
    · exact (List.mem_cons.1 h).imp_right (List.mem_cons_of_mem _)
    · obtain rfl | h := List.mem_cons.1 h
      · exact .inr List.mem_cons_self
      · exact (ih h).imp_right (List.mem_cons_of_mem _)

theorem sorted_insertEntry {entries : List (Location × Node)} (h : entries.Pairwise Precedes)
    (location : Location) (node : Node) :
    (insertEntry location node entries).Pairwise Precedes := by
  induction entries with
  | nil => exact List.pairwise_singleton _ _
  | cons entry entries ih =>
    rw [List.pairwise_cons] at h
    unfold insertEntry
    split
    · next hlt =>
      refine List.pairwise_cons.2 ⟨?_, List.pairwise_cons.2 h⟩
      intro later hlater
      obtain rfl | hlater := List.mem_cons.1 hlater
      · exact hlt
      · exact Precedes.trans (a := (location, node)) hlt (h.1 later hlater)
    · next heq =>
      obtain rfl := Location.compare_eq_eq_iff.1 heq
      exact List.pairwise_cons.2 ⟨fun later hlater => h.1 later hlater, h.2⟩
    · next hgt =>
      refine List.pairwise_cons.2 ⟨fun later hlater => ?_, ih h.2⟩
      obtain rfl | hlater := mem_insertEntry hlater
      · show Location.compare entry.1 location = .lt
        rw [← Location.swap_compare, hgt]
        rfl
      · exact h.1 later hlater

section Changes

variable {tree changed : FileTree} {path : Path}

/-- An entry in a directory, where no other directory is. -/
theorem WellFormed.insert (h : tree.WellFormed) {directory : Location} {name : Text} {node : Node}
    (hdirectory : tree.node? directory = some .directory) (hname : IsEntryName name)
    (hshort : isTooLong name = false)
    (hnode : node = .directory ∨ tree.node? (directory ++ [name]) ≠ some .directory) :
    (tree.insert (directory ++ [name]) node).WellFormed := by
  have hne : directory ++ [name] ≠ [] := by simp
  have hown := h.isEntryName hdirectory
  refine ⟨sorted_insertEntry h.sorted _ _, ?_, ?_, ?_⟩
  · intro entry hentry other hother
    obtain rfl | hentry := mem_insertEntry hentry
    · obtain hother | hother := List.mem_append.1 hother
      · exact (hown other hother).1
      · exact List.mem_singleton.1 hother ▸ hname
    · exact h.names entry hentry other hother
  · intro entry hentry other hother
    obtain rfl | hentry := mem_insertEntry hentry
    · obtain hother | hother := List.mem_append.1 hother
      · exact (hown other hother).2
      · exact List.mem_singleton.1 hother ▸ hshort
    · exact h.short entry hentry other hother
  · intro entry hentry
    obtain rfl | hentry := mem_insertEntry hentry
    · refine ⟨hne, ?_⟩
      dsimp only
      rw [List.dropLast_concat, node?_insert tree hne, if_neg (by simp), hdirectory]
    · obtain ⟨hentryNe, hparent⟩ := h.parents entry hentry
      refine ⟨hentryNe, ?_⟩
      rw [node?_insert tree hne]
      split
      · next heq =>
        rw [heq] at hparent
        obtain rfl | hother := hnode
        · rfl
        · exact absurd hparent hother
      · exact hparent

theorem node?_discard (tree : FileTree) (p : Location → Bool) {location : Location}
    (hne : location ≠ []) :
    (tree.discard p).node? location = if p location then none else tree.node? location := by
  cases location with
  | nil => exact absurd rfl hne
  | cons name location => exact lookup_discard p tree.entries (name :: location)

/-- What is discarded takes along what is in it. -/
theorem WellFormed.discard (h : tree.WellFormed) (p : Location → Bool)
    (hp : ∀ entry ∈ tree.entries, p entry.1 = false → p entry.1.dropLast = false) :
    (tree.discard p).WellFormed := by
  have hmem : ∀ entry ∈ (tree.discard p).entries, entry ∈ tree.entries ∧ p entry.1 = false := by
    intro entry hentry
    obtain ⟨hentry, hkept⟩ := List.mem_filter.1 hentry
    exact ⟨hentry, by simpa using hkept⟩
  refine ⟨h.sorted.filter _, ?_, ?_, ?_⟩
  · exact fun entry hentry => h.names entry (hmem entry hentry).1
  · exact fun entry hentry => h.short entry (hmem entry hentry).1
  · intro entry hentry
    obtain ⟨hentry, hkept⟩ := hmem entry hentry
    obtain ⟨hne, hparent⟩ := h.parents entry hentry
    refine ⟨hne, ?_⟩
    by_cases hroot : entry.1.dropLast = []
    · rw [hroot]
      rfl
    · rw [node?_discard tree p hroot, if_neg (by simp [hp entry hentry hkept]), hparent]

/-- A last piece that names an entry follows a directory and is the name of an entry. -/
theorem splitLast_entry {directory : Location} {last : Text}
    (h : tree.splitLast path = .ok (directory, last)) (hlast : isEntryName last = true) :
    tree.node? directory = some .directory ∧ IsEntryName last ∧ isTooLong last = false := by
  unfold splitLast at h
  split at h
  · nomatch h
  · obtain ⟨-, rfl⟩ := Prod.mk.inj (Except.ok.inj h)
    nomatch hlast
  · next found before _ hpieces =>
    obtain ⟨reached, -, hrest⟩ := bind_eq_ok_iff.1 h
    have hhead := List.head?_dropWhile_not List.isEmpty (rawPieces path).reverse
    rw [hpieces] at hhead
    have hslash : '/' ∉ found := by
      refine slash_of_mem_rawPieces path (List.mem_reverse.1 ?_)
      exact (List.dropWhile_sublist _).subset (hpieces ▸ List.mem_cons_self)
    split at hrest
    · next hnode =>
      split at hrest
      · nomatch hrest
      · next hshort =>
        obtain ⟨rfl, rfl⟩ := Prod.mk.inj (Except.ok.inj hrest)
        unfold isEntryName at hlast
        simp only [Bool.not_eq_true', Bool.or_eq_false_iff, decide_eq_false_iff_not] at hlast
        refine ⟨hnode, ⟨?_, hslash, hlast.1, hlast.2⟩, Bool.eq_false_iff.2 hshort⟩
        rintro rfl
        nomatch hhead
    · nomatch hrest
    · nomatch hrest

/-- What a directory that is made was made of. -/
theorem makeDirectory_eq_ok (h : tree.makeDirectory path = .ok changed) :
    ∃ directory last, tree.splitLast path = .ok (directory, last) ∧ isEntryName last = true ∧
      tree.node? (directory ++ [last]) = none ∧
      changed = tree.insert (directory ++ [last]) .directory := by
  obtain ⟨⟨directory, last⟩, hsplit, hmake⟩ := bind_eq_ok_iff.1 h
  dsimp only at hmake
  split at hmake
  · next hfree =>
    rw [Bool.and_eq_true, Option.isNone_iff_eq_none] at hfree
    exact ⟨directory, last, hsplit, hfree.1, hfree.2, (Except.ok.inj hmake).symm⟩
  · nomatch hmake

theorem WellFormed.makeDirectory (h : tree.WellFormed)
    (hmake : tree.makeDirectory path = .ok changed) : changed.WellFormed := by
  obtain ⟨directory, last, hsplit, hlast, -, rfl⟩ := makeDirectory_eq_ok hmake
  obtain ⟨hdirectory, hname, hshort⟩ := splitLast_entry hsplit hlast
  exact h.insert hdirectory hname hshort (.inl rfl)

theorem wellFormed_ensureDirectory (h : tree.WellFormed) (path : Path) :
    (tree.ensureDirectory path).2.WellFormed := by
  unfold ensureDirectory
  split
  · next hmake => exact h.makeDirectory hmake
  · split <;> exact h

theorem wellFormed_makeDirectoriesUpTo (h : tree.WellFormed) (bound : Nat) (path : Path) :
    (makeDirectoriesUpTo bound tree path).2.WellFormed := by
  induction bound generalizing path with
  | zero => exact h
  | succ bound ih =>
    unfold makeDirectoriesUpTo
    split
    · exact h
    · split
      · next parent _ _ =>
        have hparent := ih parent
        split
        · next made hmade =>
          rw [hmade] at hparent
          exact wellFormed_ensureDirectory hparent path
        · exact hparent
      · exact wellFormed_ensureDirectory h path

theorem wellFormed_makeDirectories (h : tree.WellFormed) (path : Path) :
    (tree.makeDirectories path).2.WellFormed :=
  wellFormed_makeDirectoriesUpTo h _ path

theorem WellFormed.made (h : tree.WellFormed)
    (hmade : tree.makeDirectories path = (.ok (), changed)) : changed.WellFormed := by
  have hwell := wellFormed_makeDirectories h path
  rwa [hmade] at hwell

/-- What a file that is written was written to. -/
theorem write_eq_insert {content : Content} (h : tree.write path content = .ok changed) :
    ∃ directory last, tree.splitLast path = .ok (directory, last) ∧ isEntryName last = true ∧
      path.text.getLast? ≠ some '/' ∧ tree.node? (directory ++ [last]) ≠ some .directory ∧
      changed = tree.insert (directory ++ [last]) (.file content) := by
  obtain ⟨⟨directory, last⟩, hsplit, hwrite⟩ := bind_eq_ok_iff.1 h
  dsimp only at hwrite
  split at hwrite
  · nomatch hwrite
  · next hlast =>
    rw [Bool.or_eq_true, not_or, Bool.not_eq_true', Bool.not_eq_false, decide_eq_true_eq] at hlast
    split at hwrite
    · nomatch hwrite
    · next hfree =>
      exact ⟨directory, last, hsplit, hlast.2, hlast.1, fun heq => hfree heq,
        (Except.ok.inj hwrite).symm⟩

theorem wellFormed_write (h : tree.WellFormed) {content : Content}
    (hwrite : tree.write path content = .ok changed) : changed.WellFormed := by
  obtain ⟨directory, last, hsplit, hlast, -, hfree, rfl⟩ := write_eq_insert hwrite
  obtain ⟨hdirectory, hname, hshort⟩ := splitLast_entry hsplit hlast
  exact h.insert hdirectory hname hshort (.inr hfree)

theorem wellFormed_copy (h : tree.WellFormed) {source target : Path}
    (hcopy : tree.copy source target = .ok changed) : changed.WellFormed := by
  unfold copy at hcopy
  split at hcopy
  · nomatch hcopy
  · obtain ⟨_, -, hcopy⟩ := bind_eq_ok_iff.1 hcopy
    obtain ⟨emptied, hempty, hcopy⟩ := bind_eq_ok_iff.1 hcopy
    obtain ⟨again, -, hwrite⟩ := bind_eq_ok_iff.1 hcopy
    exact wellFormed_write (wellFormed_write h hempty) hwrite

/-- An entry and what it stands in. -/
theorem WellFormed.exists_concat (h : tree.WellFormed) {entry : Location × Node}
    (hentry : entry ∈ tree.entries) : ∃ directory name, entry.1 = directory ++ [name] := by
  obtain hnil | ⟨directory, name, heq⟩ := List.eq_nil_or_concat entry.1
  · exact absurd hnil (h.parents entry hentry).1
  · exact ⟨directory, name, heq.trans List.concat_eq_append⟩

/-- Without what is in a directory. -/
theorem WellFormed.clear (h : tree.WellFormed) (directory : Location) :
    (tree.discard fun entry =>
      Location.isAtOrBelow directory entry && entry ≠ directory).WellFormed := by
  refine h.discard _ fun entry hentry hkept => ?_
  obtain ⟨parent, name, heq⟩ := h.exists_concat hentry
  rw [heq, List.dropLast_concat]
  rw [heq, Bool.eq_false_iff] at hkept
  refine Bool.eq_false_iff.2 fun hlost => hkept ?_
  rw [Bool.and_eq_true] at hlost ⊢
  obtain ⟨names, rfl⟩ := Location.isAtOrBelow_iff.1 hlost.1
  rw [List.append_assoc]
  exact ⟨Location.isAtOrBelow_append _ _, by simp⟩

theorem wellFormed_removeDirectory (h : tree.WellFormed) (path : Path) :
    (tree.removeDirectory path).2.WellFormed := by
  unfold removeDirectory
  split
  · exact h
  · next location _ =>
    split
    · have hcleared := h.clear location
      dsimp only
      split
      · exact hcleared
      · exact hcleared
      · exact hcleared
      · exact hcleared
      · -- nothing is left in the directory
        refine hcleared.discard (· = location) fun entry hentry _ => ?_
        obtain ⟨parent, name, heq⟩ := hcleared.exists_concat hentry
        obtain ⟨-, hkept⟩ := List.mem_filter.1 hentry
        rw [heq, List.dropLast_concat, decide_eq_false_iff_not]
        rintro rfl
        simp [heq, Location.isAtOrBelow_append] at hkept
    · exact h

theorem WellFormed.removed (h : tree.WellFormed)
    (hremoved : tree.removeDirectory path = (.ok (), changed)) : changed.WellFormed := by
  have hwell := wellFormed_removeDirectory h path
  rwa [hremoved] at hwell

end Changes

end FileTree

end SourcePreprocessor
