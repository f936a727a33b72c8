import Mathlib.Data.List.Basic
import SourcePreprocessor.Proofs.File.Files

/-!
# A working directory that holds one file

A tree is seen from its working directory through its listing. Here the listing has one entry, the
file `input.txt`. Everything else that paths can lead to from there is missing, so a destination
beside the file can be made and written to:

> `HoldsOnly.ready`: after the destination is made it is there and empty;
> `Ready.readText_written`: what is written to it is read back.
-/

namespace SourcePreprocessor

namespace FileTree

/-- The working directory holds the file and nothing else. -/
structure HoldsOnly (tree : FileTree) (name : Text) (content : Content) : Prop where
  directory : tree.node? tree.workingDirectory = some .directory
  unique : ∀ node, (tree.workingDirectory, node) ∈ tree.entries → node = .directory
  listing : tree.listing = [([name], .file content)]

/-- What stands below the working directory is in the listing. -/
theorem node?_below (tree : FileTree) {names : Location} (hne : names ≠ []) :
    tree.node? (tree.workingDirectory ++ names) = tree.listing.lookup names := by
  have hempty : (tree.workingDirectory ++ names).isEmpty = false := by simp [hne]
  unfold node? listing
  rw [hempty]
  show tree.entries.lookup _ = _
  induction tree.entries with
  | nil => rfl
  | cons entry entries ih =>
    obtain ⟨location, node⟩ := entry
    rw [lookup_cons_eq_ite, List.filterMap_cons]
    by_cases hbelow : Location.isAtOrBelow tree.workingDirectory location = true
    · obtain ⟨others, rfl⟩ := Location.isAtOrBelow_iff.1 hbelow
      by_cases hothers : others = []
      · subst hothers
        simp [hne, ih]
      · simp [hbelow, hothers, ih, lookup_cons_eq_ite]
    · have hneq : tree.workingDirectory ++ names ≠ location := by
        rintro rfl
        exact hbelow (Location.isAtOrBelow_iff.2 ⟨names, rfl⟩)
      rw [if_neg hneq, ih]
      simp [hbelow]

/-- A walk from the working directory finds the files of the listing. -/
theorem filesBelow_workingDirectory (tree : FileTree)
    (h : ∀ node, (tree.workingDirectory, node) ∈ tree.entries → node = .directory) :
    tree.filesBelow tree.workingDirectory none =
      tree.listing.filterMap fun entry => entry.2.content?.map fun _ => entry.1 := by
  unfold filesBelow listing
  rw [List.filterMap_filterMap]
  refine List.filterMap_congr fun entry hentry => ?_
  obtain ⟨location, node⟩ := entry
  by_cases hbelow : Location.isAtOrBelow tree.workingDirectory location = true
  · by_cases hwd : location = tree.workingDirectory
    · subst hwd
      rw [h node hentry]
      simp
    · cases node <;> simp [hbelow, hwd, Node.content?]
  · cases node <;> simp [hbelow]

section Following

variable {tree : FileTree} {location : Location} {name : Text} {node : Node}

theorem follow_idle (hdirectory : tree.node? location = some .directory) (pieces : List Text) :
    tree.follow location (['.'] :: pieces) = tree.follow location pieces := by
  have hstep : tree.step location ['.'] = .ok location := by
    unfold step
    rw [hdirectory]
    rfl
  rw [follow, hstep]
  rfl

theorem follow_name (hdirectory : tree.node? location = some .directory) (hname : IsEntryName name)
    (hnode : tree.node? (location ++ [name]) = some node) (pieces : List Text) :
    tree.follow location (name :: pieces) = tree.follow (location ++ [name]) pieces := by
  have hstep : tree.step location name = .ok (location ++ [name]) := by
    unfold step
    rw [hdirectory]
    dsimp only
    rw [Location.isIdle_of_isEntryName hname, if_neg (by decide), if_neg hname.2.2.2, hnode]
    rfl
  rw [follow, hstep]
  rfl

theorem follow_missing (hdirectory : tree.node? location = some .directory)
    (hname : IsEntryName name) (hnode : tree.node? (location ++ [name]) = none)
    (hlong : isTooLong name = false) (pieces : List Text) :
    tree.follow location (name :: pieces) = .error .notFound := by
  have hstep : tree.step location name = .error .notFound := by
    unfold step
    rw [hdirectory]
    dsimp only
    rw [Location.isIdle_of_isEntryName hname, if_neg (by decide), if_neg hname.2.2.2, hnode, hlong]
    rfl
  rw [follow, hstep]
  rfl

end Following

/-! ### The paths of a run with default settings -/

/-- The name of the one file. -/
def inputName : Text := "input.txt".toList

/-- The name of the destination. -/
def outputName : Text := "preprocessed".toList

theorem isEntryName_inputName : IsEntryName inputName := by
  unfold IsEntryName inputName
  decide

theorem isEntryName_outputName : IsEntryName outputName := by
  unfold IsEntryName outputName
  decide

section Tree

variable {tree : FileTree} {t : Text}

theorem resolve_current (h : tree.node? tree.workingDirectory = some .directory) :
    tree.resolve (.ofString ".") = .ok tree.workingDirectory := by
  show tree.follow tree.workingDirectory [['.']] = _
  rw [follow_idle h]
  rfl

namespace HoldsOnly

theorem node?_input (h : tree.HoldsOnly inputName (.text t)) :
    tree.node? (tree.workingDirectory ++ [inputName]) = some (.file (.text t)) := by
  rw [tree.node?_below (by simp), h.listing]
  rfl

theorem node?_other (h : tree.HoldsOnly inputName (.text t)) {names : Location} (hne : names ≠ [])
    (hother : names ≠ [inputName]) : tree.node? (tree.workingDirectory ++ names) = none := by
  rw [tree.node?_below hne, h.listing, lookup_cons_eq_ite, if_neg hother]
  rfl

theorem resolve_output (h : tree.HoldsOnly inputName (.text t)) :
    tree.resolve (.ofString "preprocessed") = .error .notFound := by
  show tree.follow tree.workingDirectory [outputName] = _
  exact follow_missing h.directory isEntryName_outputName (h.node?_other (by simp) (by decide))
    (by decide) []

theorem readText_input (h : tree.HoldsOnly inputName (.text t)) :
    tree.readText (.ofString "./input.txt") = .ok t := by
  have hresolve : tree.resolve (.ofString "./input.txt") =
      .ok (tree.workingDirectory ++ [inputName]) := by
    show tree.follow tree.workingDirectory [['.'], inputName] = _
    rw [follow_idle h.directory, follow_name h.directory isEntryName_inputName h.node?_input]
    rfl
  unfold readText read
  rw [hresolve, ok_bind, h.node?_input]
  rfl

end HoldsOnly

/-- Nothing has to be made before a directory whose parent is there. -/
theorem makeDirectories_eq {path : Path} (hpath : path.components.isEmpty = false)
    (hmake : tree.makeDirectory path ≠ .error .notFound) :
    tree.makeDirectories path = tree.ensureDirectory path := by
  unfold makeDirectories
  rw [makeDirectoriesUpTo, hpath, if_neg (by decide)]
  split
  · next h _ => exact absurd h hmake
  · rfl

theorem splitLast_output (h : tree.node? tree.workingDirectory = some .directory) :
    tree.splitLast (.ofString "preprocessed") = .ok (tree.workingDirectory, outputName) := by
  have hpieces : (rawPieces (.ofString "preprocessed")).reverse.dropWhile List.isEmpty =
      [outputName] := by decide
  exact splitLast_of_follow (by decide) hpieces rfl h (by decide)

/-- Making the destination adds a directory. -/
theorem HoldsOnly.makeDirectories_output (h : tree.HoldsOnly inputName (.text t)) :
    tree.makeDirectories (.ofString "preprocessed") =
      (.ok (), tree.insert (tree.workingDirectory ++ [outputName]) .directory) := by
  have hmake : tree.makeDirectory (.ofString "preprocessed") =
      .ok (tree.insert (tree.workingDirectory ++ [outputName]) .directory) := by
    unfold makeDirectory
    rw [splitLast_output h.directory, ok_bind]
    dsimp only
    rw [h.node?_other (by simp) (by decide)]
    rfl
  rw [makeDirectories_eq (by decide) (by rw [hmake]; nofun)]
  unfold ensureDirectory
  rw [hmake]

end Tree

/-! ### The destination -/

section Destination

variable {tree : FileTree}

/-- The tree with the destination in the working directory and nothing in it. -/
structure Ready (tree : FileTree) : Prop where
  directory : tree.node? tree.workingDirectory = some .directory
  destination : tree.node? (tree.workingDirectory ++ [outputName]) = some .directory
  output : tree.node? (tree.workingDirectory ++ [outputName] ++ [inputName]) = none

theorem HoldsOnly.ready {t : Text} (h : tree.HoldsOnly inputName (.text t)) :
    (tree.insert (tree.workingDirectory ++ [outputName]) .directory).Ready := by
  have hne : tree.workingDirectory ++ [outputName] ≠ [] := by simp
  refine ⟨?_, ?_, ?_⟩
  · rw [node?_insert tree hne]
    simp [insert, h.directory]
  · rw [node?_insert tree hne]
    exact if_pos rfl
  · rw [node?_insert tree hne, if_neg (by simp [insert]), List.append_assoc]
    exact h.node?_other (by simp) (by decide)

theorem Ready.resolve_output (h : tree.Ready) :
    tree.resolve (.ofString "preprocessed") = .ok (tree.workingDirectory ++ [outputName]) := by
  show tree.follow tree.workingDirectory [outputName] = _
  rw [follow_name h.directory isEntryName_outputName h.destination]
  rfl

/-- The destination is not made a second time. -/
theorem Ready.makeDirectories_output (h : tree.Ready) :
    tree.makeDirectories (.ofString "preprocessed") = (.ok (), tree) := by
  have hmake : tree.makeDirectory (.ofString "preprocessed") = .error .alreadyExists := by
    unfold makeDirectory
    rw [splitLast_output h.directory, ok_bind]
    dsimp only
    rw [h.destination]
    rfl
  have hdirectory : tree.isDirectory (.ofString "preprocessed") = true := by
    unfold isDirectory locate?
    rw [h.resolve_output]
    exact decide_eq_true h.destination
  rw [makeDirectories_eq (by decide) (by rw [hmake]; nofun)]
  unfold ensureDirectory
  rw [hmake]
  dsimp only
  rw [hdirectory]
  rfl

theorem Ready.write_output (h : tree.Ready) (output : Text) :
    tree.write (.ofString "preprocessed/input.txt") (.text output) =
      .ok (tree.insert (tree.workingDirectory ++ [outputName] ++ [inputName])
        (.file (.text output))) := by
  have hsplit : tree.splitLast (.ofString "preprocessed/input.txt") =
      .ok (tree.workingDirectory ++ [outputName], inputName) := by
    have hpieces : (rawPieces (.ofString "preprocessed/input.txt")).reverse.dropWhile List.isEmpty =
        [inputName, outputName] := by decide
    refine splitLast_of_follow (by decide) hpieces ?_ h.destination (by decide)
    show tree.follow tree.workingDirectory [outputName] = _
    rw [follow_name h.directory isEntryName_outputName h.destination]
    rfl
  have hentry : ((Path.ofString "preprocessed/input.txt").text.getLast? = some '/' ||
      !isEntryName inputName) = false := by decide
  unfold write
  rw [hsplit, ok_bind]
  dsimp only
  rw [hentry, h.output]
  rfl

theorem Ready.readText_written (h : tree.Ready) (output : Text) :
    (tree.insert (tree.workingDirectory ++ [outputName] ++ [inputName])
      (.file (.text output))).readText (.ofString "preprocessed/input.txt") = .ok output := by
  have hne : tree.workingDirectory ++ [outputName] ++ [inputName] ≠ [] := by simp
  generalize hwritten : tree.insert (tree.workingDirectory ++ [outputName] ++ [inputName])
    (.file (.text output)) = written
  have hwd : written.workingDirectory = tree.workingDirectory := by
    rw [← hwritten]
    rfl
  have hdirectory : written.node? tree.workingDirectory = some .directory := by
    rw [← hwritten, node?_insert tree hne, if_neg (by simp)]
    exact h.directory
  have hdestination : written.node? (tree.workingDirectory ++ [outputName]) = some .directory := by
    rw [← hwritten, node?_insert tree hne, if_neg (by simp)]
    exact h.destination
  have houtput : written.node? (tree.workingDirectory ++ [outputName] ++ [inputName]) =
      some (.file (.text output)) := by
    rw [← hwritten, node?_insert tree hne, if_pos rfl]
  have hresolve : written.resolve (.ofString "preprocessed/input.txt") =
      .ok (tree.workingDirectory ++ [outputName] ++ [inputName]) := by
    show written.follow written.workingDirectory [outputName, inputName] = _
    rw [hwd, follow_name hdirectory isEntryName_outputName hdestination,
      follow_name hdestination isEntryName_inputName houtput]
    rfl
  unfold readText read
  rw [hresolve, ok_bind, houtput]
  rfl

/-- Where nothing was written there is nothing to read. -/
theorem Ready.exists_output (h : tree.Ready) :
    tree.exists? (.ofString "preprocessed/input.txt") = false := by
  have hresolve : tree.resolve (.ofString "preprocessed/input.txt") = .error .notFound := by
    show tree.follow tree.workingDirectory [outputName, inputName] = _
    rw [follow_name h.directory isEntryName_outputName h.destination,
      follow_missing h.destination isEntryName_inputName h.output (by decide)]
  unfold exists? locate?
  rw [hresolve]
  rfl

end Destination

end FileTree

end SourcePreprocessor
