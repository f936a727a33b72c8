import Mathlib.Data.List.Nodup
import Mathlib.Data.List.Perm.Subperm
import SourcePreprocessor.Proofs.Pass.Inclusion
import SourcePreprocessor.Proofs.Pass.Structured

/-!
# Includes come to an end

A text includes a file, that file the next one, and so on. The pass itself is written with a bound
on how deep this goes. Here it is said without one: `TextEnds` is the pass over a text as a finite
derivation, in which an include is the derivation for the included text. That there is a derivation
for every text is that every pass comes to an end, and nothing but the files that exist is used to
show it:

> `Linked`: the file and the files that it was included from lead to different places, and all but
> the first of them were read from the tree. An include keeps this so (`Linked.step`), because one
> that would not is refused as a cycle.
>
> `Linked.length_le`: so there are no more of them than files in the tree.

With that many steps, and one for the first text, the bound is never reached (`textEnds_processText`).
-/

namespace SourcePreprocessor

/-! ## The pass without a bound -/

mutual

/-- Going through the text of a file ends with this result. -/
inductive TextEnds (env : Environment) :
    List Position → Path → Text → Machine → Processed → Prop
  | intro {chain : List Position} {file : Path} {t : Text} {m : Machine} {r : Processed}
    (lines : LinesEnd env chain file 1 (Text.lines t) m r) :
    TextEnds env chain file t m (goOn r (checkClosed chain file m.state.blocks.depth))

/-- Going through lines, the first of which has the given number, ends with this result. -/
inductive LinesEnd (env : Environment) :
    List Position → Path → Nat → List Text → Machine → Processed → Prop
  | nil {chain : List Position} {file : Path} {line : Nat} {m : Machine} :
    LinesEnd env chain file line [] m (.ok .next, m)
  | next {chain : List Position} {file : Path} {line : Nat} {content : Text} {contents : List Text}
    {m after : Machine} {r : Processed}
    (first : LineEnds env chain ⟨file, line⟩ content m (.ok .next, after))
    (rest : LinesEnd env chain file (line + 1) contents after r) :
    LinesEnd env chain file line (content :: contents) m r
  | stop {chain : List Position} {file : Path} {line : Nat} {content : Text} {contents : List Text}
    {m after : Machine} (first : LineEnds env chain ⟨file, line⟩ content m (.ok .stop, after)) :
    LinesEnd env chain file line (content :: contents) m
      (.ok .stop, after.note .detail ((Position.mk file line).string ++ ": exit"))
  | fail {chain : List Position} {file : Path} {line : Nat} {content : Text} {contents : List Text}
    {m after : Machine} {d : Diagnostic}
    (first : LineEnds env chain ⟨file, line⟩ content m (.error d, after)) :
    LinesEnd env chain file line (content :: contents) m (.error d, after)

/-- Carrying out a line ends with this result. A line that includes a file ends as the text of the
file does. -/
inductive LineEnds (env : Environment) :
    List Position → Position → Text → Machine → Processed → Prop
  | alone {chain : List Position} {here : Position} {content : Text} {m : Machine}
    (own : ∀ file t, lineEffect env chain here m content ≠ .ok (.enter file t)) :
    LineEnds env chain here content m (processLine skipFile env chain here content m)
  | entering {chain : List Position} {here : Position} {content : Text} {m : Machine} {file : Path}
    {t : Text} {r : Processed} (effect : lineEffect env chain here m content = .ok (.enter file t))
    (text : TextEnds env (chain ++ [here]) file t
      (m.note .detail (here.string ++ ": including " ++ file.string)) r) :
    LineEnds env chain here content m r

end

/-! A pass ends in one way only. -/

mutual

theorem TextEnds.unique {env : Environment} {chain : List Position} {file : Path} {t : Text}
    {m : Machine} {r r' : Processed} (h : TextEnds env chain file t m r)
    (h' : TextEnds env chain file t m r') : r = r' :=
  match h, h' with
  | .intro lines, .intro lines' => by rw [lines.unique lines']

theorem LinesEnd.unique {env : Environment} {chain : List Position} {file : Path} {line : Nat}
    {contents : List Text} {m : Machine} {r r' : Processed}
    (h : LinesEnd env chain file line contents m r)
    (h' : LinesEnd env chain file line contents m r') : r = r' :=
  match h, h' with
  | .nil, .nil => rfl
  | .next first rest, .next first' rest' => by
    obtain ⟨-, rfl⟩ := Prod.mk.inj (first.unique first')
    exact rest.unique rest'
  | .next first _, .stop first' => nomatch (Prod.mk.inj (first.unique first')).1
  | .next first _, .fail first' => nomatch (Prod.mk.inj (first.unique first')).1
  | .stop first, .next first' _ => nomatch (Prod.mk.inj (first.unique first')).1
  | .stop first, .stop first' => by
    obtain ⟨-, rfl⟩ := Prod.mk.inj (first.unique first')
    rfl
  | .stop first, .fail first' => nomatch (Prod.mk.inj (first.unique first')).1
  | .fail first, .next first' _ => nomatch (Prod.mk.inj (first.unique first')).1
  | .fail first, .stop first' => nomatch (Prod.mk.inj (first.unique first')).1
  | .fail first, .fail first' => first.unique first'

theorem LineEnds.unique {env : Environment} {chain : List Position} {here : Position}
    {content : Text} {m : Machine} {r r' : Processed} (h : LineEnds env chain here content m r)
    (h' : LineEnds env chain here content m r') : r = r' :=
  match h, h' with
  | .alone _, .alone _ => rfl
  | .alone own, .entering effect _ => absurd effect (own _ _)
  | .entering effect _, .alone own => absurd effect (own _ _)
  | .entering effect text, .entering effect' text' => by
    obtain ⟨rfl, rfl⟩ := Effect.enter.inj (Except.ok.inj (effect.symm.trans effect'))
    exact text.unique text'

end

/-! ## What an include asks for -/

/-- A file and the files that it was included from, the outermost first. -/
def chainFiles (chain : List Position) (file : Path) : List Path := chain.map (·.file) ++ [file]

@[simp] theorem Machine.file_scope (m : Machine) (here : Position) :
    (m.scope here).file = here.file := rfl

section Includes

variable {env : Environment} {chain : List Position} {here : Position} {m : Machine}
  {content argument : Text}

/-- A line that includes a file, in text that is kept. -/
theorem lineEffect_include
    (hkind : lineKind env.marker content = .directive .includeFile argument)
    (hactive : m.state.blocks.isActive = true) :
    lineEffect env chain here m content = atColumn (argumentColumn content argument)
      (includeEffect env.files chain (m.scope here) .includeFile argument) := by
  unfold lineEffect
  rw [hkind]
  show (if m.state.blocks.isActive then _ else _) = _
  rw [if_pos hactive]
  rfl

/-- What an include does with the name that its argument stands for. -/
theorem includeEffect_str {files : FileTree} {scope : Scope} {d : Directive} {e : Expression}
    {name : Text} (hargument : d.expressionArgument argument = .ok e)
    (hvalue : e.eval scope.get? = .ok (.str name)) :
    includeEffect files chain scope d argument =
      if isCycle files chain scope.file (includeTarget scope.file name) then
        .error (.structural (.includeCycle (includeTarget scope.file name)))
      else ((files.readText (includeTarget scope.file name)).mapError
        fun fault => .file (.plain fault)).map (.enter (includeTarget scope.file name)) := by
  unfold includeEffect
  rw [hargument]
  show (((e.eval scope.get?).mapError Cause.expression) >>= _) = _
  rw [hvalue]
  show (if _ then _ else _) = _
  split
  · rfl
  · cases files.readText (includeTarget scope.file name) <;> rfl

/-- The places that an include may not lead to. -/
theorem isCycle_iff {files : FileTree} {file target : Path} :
    isCycle files chain file target = true ↔
      ∃ f ∈ chainFiles chain file, files.canonical target = files.canonical f := by
  unfold isCycle FileTree.samePlace chainFiles
  simp only [Bool.or_eq_true, List.any_eq_true, decide_eq_true_eq, List.mem_append, List.mem_map,
    List.mem_singleton]
  constructor
  · rintro (h | ⟨position, hposition, h⟩)
    · exact ⟨file, .inr rfl, h.symm⟩
    · exact ⟨position.file, .inl ⟨position, hposition, rfl⟩, h.symm⟩
  · rintro ⟨f, ⟨position, hposition, rfl⟩ | rfl, h⟩
    · exact .inr ⟨position, hposition, h.symm⟩
    · exact .inl h.symm

/-- An include is refused as a cycle exactly when its target leads to one of these places. What is
no cycle fails, if it does, at reading the file. -/
theorem lineEffect_cycle_iff {e : Expression} {name : Text}
    (hkind : lineKind env.marker content = .directive .includeFile argument)
    (hactive : m.state.blocks.isActive = true)
    (hargument : Directive.includeFile.expressionArgument argument = .ok e)
    (hvalue : e.eval (m.scope here).get? = .ok (.str name)) :
    lineEffect env chain here m content = .error ⟨.structural
        (.includeCycle (includeTarget here.file name)), argumentColumn content argument⟩ ↔
      ∃ f ∈ chainFiles chain here.file,
        env.files.canonical (includeTarget here.file name) = env.files.canonical f := by
  rw [lineEffect_include hkind hactive, includeEffect_str hargument hvalue, Machine.file_scope,
    ← isCycle_iff]
  by_cases hcycle : isCycle env.files chain here.file (includeTarget here.file name) = true
  · rw [if_pos hcycle]
    exact ⟨fun _ => hcycle, fun _ => rfl⟩
  · rw [if_neg hcycle]
    refine ⟨fun h => ?_, fun h => absurd h hcycle⟩
    revert h
    cases env.files.readText (includeTarget here.file name) with
    | error fault => nofun
    | ok u => nofun

/-- What a line has done that enters a file: it is an include in text that is kept, its argument has
a text as its value, and the file of that name was no cycle and has been read. -/
structure Entering (env : Environment) (chain : List Position) (here : Position) (m : Machine)
    (content : Text) (argument : Text) (e : Expression) (name t : Text) : Prop where
  kind : lineKind env.marker content = .directive .includeFile argument
  active : m.state.blocks.isActive = true
  expression : Directive.includeFile.expressionArgument argument = .ok e
  value : e.eval (m.scope here).get? = .ok (.str name)
  cycle : isCycle env.files chain here.file (includeTarget here.file name) = false
  read : env.files.readText (includeTarget here.file name) = .ok t

theorem Entering.lineEffect {e : Expression} {name t : Text}
    (h : Entering env chain here m content argument e name t) :
    lineEffect env chain here m content = .ok (.enter (includeTarget here.file name) t) := by
  rw [lineEffect_include h.kind h.active, includeEffect_str h.expression h.value,
    Machine.file_scope, h.cycle, if_neg Bool.false_ne_true, h.read]
  rfl

theorem entering_of_lineEffect {target : Path} {t : Text}
    (h : lineEffect env chain here m content = .ok (.enter target t)) :
    ∃ argument e name, Entering env chain here m content argument e name t ∧
      target = includeTarget here.file name := by
  have hk := isConditional_of_enter h
  rcases lineEffect_cases hk h with hkeep | ⟨hinclude, hactive, -⟩
  · nomatch hkeep
  · obtain ⟨argument, hkind⟩ := LineKind.eq_of_isInclude hinclude
    rw [lineEffect_include hkind hactive] at h
    have heffect := mapError_eq_ok_iff.1 h
    unfold includeEffect at heffect
    obtain ⟨e, he, heffect⟩ := bind_eq_ok_iff.1 heffect
    obtain ⟨v, hv, heffect⟩ := bind_eq_ok_iff.1 heffect
    obtain ⟨name, hname, heffect⟩ := bind_eq_ok_iff.1 heffect
    have hvalue : v = .str name := by
      match v, mapError_eq_ok_iff.1 hname with
      | .str _, h => exact congrArg Value.str (Except.ok.inj h)
    dsimp only at heffect
    split at heffect
    · nomatch heffect
    · next hcycle =>
      obtain ⟨u, hread, hok⟩ := bind_eq_ok_iff.1 heffect
      obtain ⟨rfl, rfl⟩ := Effect.enter.inj (Except.ok.inj hok)
      exact ⟨argument, e, name, ⟨hkind, hactive, he, hvalue ▸ mapError_eq_ok_iff.1 hv,
        Bool.eq_false_iff.2 hcycle, mapError_eq_ok_iff.1 hread⟩, rfl⟩

/-- A line that enters a file was no cycle and has read it. -/
theorem entered_of_lineEffect {target : Path} {t : Text}
    (h : lineEffect env chain here m content = .ok (.enter target t)) :
    isCycle env.files chain here.file target = false ∧ env.files.readText target = .ok t := by
  obtain ⟨argument, e, name, hentering, rfl⟩ := entering_of_lineEffect h
  exact ⟨hentering.cycle, hentering.read⟩

end Includes

/-! ## Chains of includes -/

/-- The files of a chain lead to different places, and all but the first of them were read from the
tree. -/
structure Linked (files : FileTree) (chain : List Position) (file : Path) : Prop where
  distinct : ((chainFiles chain file).map files.canonical).Nodup
  read : ∀ f ∈ (chainFiles chain file).tail, ∃ t, files.readText f = .ok t

namespace FileTree

/-- The locations of the files of a tree. -/
def fileLocations (tree : FileTree) : List Location :=
  (tree.entries.filter fun entry => entry.2 ≠ .directory).map Prod.fst

theorem length_fileLocations (tree : FileTree) : tree.fileLocations.length = tree.fileCount :=
  List.length_map _

/-- A text that was read is the content of a file. -/
theorem mem_entries_of_readText {tree : FileTree} {path : Path} {t : Text}
    (h : tree.readText path = .ok t) :
    ∃ location, (location, .file (.text t)) ∈ tree.entries ∧ tree.locate? path = some location := by
  obtain ⟨content, hread, hcontent⟩ := bind_eq_ok_iff.1 h
  obtain rfl : content = .text t := by
    match content, hcontent with
    | .text _, hcontent => exact congrArg Content.text (Except.ok.inj hcontent)
  obtain ⟨location, hresolve, hnode⟩ := bind_eq_ok_iff.1 hread
  refine ⟨location, ?_, by rw [locate?, hresolve]; rfl⟩
  split at hnode
  · next content hfile =>
    obtain rfl := Except.ok.inj hnode
    unfold node? at hfile
    split at hfile
    · nomatch hfile
    · obtain ⟨before, after, hentries, -⟩ := List.lookup_eq_some_iff.1 hfile
      rw [hentries]
      exact List.mem_append_right before List.mem_cons_self
  · nomatch hnode
  · nomatch hnode

/-- A path that a text was read from leads to a file. -/
theorem locate?_of_readText {tree : FileTree} {path : Path} {t : Text}
    (h : tree.readText path = .ok t) :
    ∃ location ∈ tree.fileLocations, tree.locate? path = some location := by
  obtain ⟨location, hmem, hlocate⟩ := mem_entries_of_readText h
  exact ⟨location, List.mem_map.2 ⟨_, List.mem_filter.2 ⟨hmem, by simp⟩, rfl⟩, hlocate⟩

/-- Paths that lead to files, no two of them to the same one, are no more than there are files. -/
theorem length_le_fileCount {tree : FileTree} {paths : List Path}
    (hdistinct : (paths.map tree.canonical).Nodup)
    (hread : ∀ path ∈ paths, ∃ t, tree.readText path = .ok t) :
    paths.length ≤ tree.fileCount := by
  have hcanonical : paths.map tree.canonical =
      (paths.map fun path => (tree.locate? path).getD []).map fun location =>
        Component.root :: location.map .name := by
    rw [List.map_map]
    refine List.map_congr_left fun path hpath => ?_
    obtain ⟨t, ht⟩ := hread path hpath
    obtain ⟨location, -, hlocate⟩ := locate?_of_readText ht
    unfold canonical
    rw [Function.comp_apply, hlocate]
    rfl
  rw [hcanonical] at hdistinct
  have hlocations : (paths.map fun path => (tree.locate? path).getD []).Nodup :=
    hdistinct.of_map _
  have hsubset : (paths.map fun path => (tree.locate? path).getD []) ⊆ tree.fileLocations := by
    intro location hlocation
    obtain ⟨path, hpath, rfl⟩ := List.mem_map.1 hlocation
    obtain ⟨t, ht⟩ := hread path hpath
    obtain ⟨found, hfound, hlocate⟩ := locate?_of_readText ht
    rw [hlocate]
    exact hfound
  have hle := (List.subperm_of_subset hlocations hsubset).length_le
  rwa [List.length_map, length_fileLocations] at hle

end FileTree

namespace Linked

variable {files : FileTree} {chain : List Position} {file : Path}

/-- A file on its own. -/
theorem start (files : FileTree) (file : Path) : Linked files [] file :=
  ⟨List.nodup_singleton _, nofun⟩

theorem chainFiles_concat (chain : List Position) (file target : Path) (line : Nat) :
    chainFiles (chain ++ [⟨file, line⟩]) target = chainFiles chain file ++ [target] := by
  unfold chainFiles
  rw [List.map_append]
  rfl

/-- An include that is no cycle leads to a further place. -/
theorem step (h : Linked files chain file) {target : Path} {t : Text} (line : Nat)
    (hcycle : isCycle files chain file target = false) (hread : files.readText target = .ok t) :
    Linked files (chain ++ [⟨file, line⟩]) target := by
  have hne : chainFiles chain file ≠ [] := by simp [chainFiles]
  constructor
  · rw [chainFiles_concat, List.map_append]
    refine List.nodup_append.2 ⟨h.distinct, List.nodup_singleton _, ?_⟩
    intro place hplace other hother heq
    obtain ⟨f, hf, rfl⟩ := List.mem_map.1 hplace
    have htarget : files.canonical target = files.canonical f :=
      ((List.mem_singleton.1 hother).symm.trans heq.symm)
    rw [isCycle_iff.2 ⟨f, hf, htarget⟩] at hcycle
    nomatch hcycle
  · rw [chainFiles_concat, List.tail_append_of_ne_nil hne]
    intro f hf
    rcases List.mem_append.1 hf with hf | hf
    · exact h.read f hf
    · rw [List.mem_singleton.1 hf]
      exact ⟨t, hread⟩

/-- A chain is no longer than there are files. -/
theorem length_le (h : Linked files chain file) : chain.length ≤ files.fileCount := by
  have hdistinct : ((chainFiles chain file).tail.map files.canonical).Nodup := by
    rw [List.map_tail]
    exact h.distinct.tail
  have hle := FileTree.length_le_fileCount hdistinct h.read
  simpa [chainFiles] using hle

end Linked

/-! ## Every pass ends -/

/-- A line that enters no file does not depend on how files are entered. -/
theorem processLine_alone {env : Environment} {chain : List Position} {here : Position}
    {content : Text} {m : Machine}
    (own : ∀ file t, lineEffect env chain here m content ≠ .ok (.enter file t))
    (enter enter' : List Position → Path → Text → Machine → Processed) :
    processLine enter env chain here content m = processLine enter' env chain here content m := by
  unfold processLine
  match heffect : lineEffect env chain here m content with
  | .ok (.enter file t) => exact absurd heffect (own file t)
  | .error _ | .ok .exit | .ok (.act ..) | .ok .nothing | .ok (.emit _) | .ok (.reblock _)
  | .ok (.bindLocal ..) | .ok (.bindGlobal ..) | .ok (.unbind _) | .ok (.redirect _)
  | .ok (.report ..) => rfl

section Lines

variable {enter : List Position → Path → Text → Machine → Processed} {env : Environment}
  {chain : List Position} {file : Path}
  (henter : ∀ line m content target t, lineEffect env chain ⟨file, line⟩ m content =
    .ok (.enter target t) → ∀ start, TextEnds env (chain ++ [⟨file, line⟩]) target t start
      (enter (chain ++ [⟨file, line⟩]) target t start))

include henter

/-- A line ends as it is carried out, if the files that it enters are processed as they end. -/
theorem lineEnds_processLine (line : Nat) (content : Text) (m : Machine) :
    LineEnds env chain ⟨file, line⟩ content m
      (processLine enter env chain ⟨file, line⟩ content m) := by
  by_cases hentered : ∃ target t, lineEffect env chain ⟨file, line⟩ m content =
      .ok (.enter target t)
  · obtain ⟨target, t, heffect⟩ := hentered
    rw [processLine_enter heffect]
    exact .entering heffect (henter line m content target t heffect _)
  · have own : ∀ target t, lineEffect env chain ⟨file, line⟩ m content ≠ .ok (.enter target t) :=
      fun target t heffect => hentered ⟨target, t, heffect⟩
    rw [processLine_alone own enter skipFile]
    exact .alone own

theorem linesEnd_processLines (contents : List Text) :
    ∀ (line : Nat) (m : Machine), LinesEnd env chain file line contents m
      (processLines enter env chain file line contents m) := by
  induction contents with
  | nil => exact fun line m => .nil
  | cons content contents ih =>
    intro line m
    have hline := lineEnds_processLine henter line content m
    rw [processLines]
    rcases hresult : processLine enter env chain ⟨file, line⟩ content m with ⟨d | _ | _, after⟩
    · exact .fail (hresult ▸ hline)
    · exact .next (hresult ▸ hline) (ih (line + 1) after)
    · exact .stop (hresult ▸ hline)

end Lines

/-- A pass with enough steps ends as it is computed: one step for the text, and one for each further
file. -/
theorem textEnds_processText (env : Environment) (bound : Nat) :
    ∀ (chain : List Position) (file : Path) (t : Text) (m : Machine),
      Linked env.files chain file → env.files.fileCount < bound + chain.length →
        TextEnds env chain file t m (processText env bound chain file t m) := by
  induction bound with
  | zero =>
    intro chain file t m hlinked hbound
    have hle := hlinked.length_le
    omega
  | succ bound ih =>
    intro chain file t m hlinked hbound
    rw [processText_succ]
    refine .intro (linesEnd_processLines ?_ (Text.lines t) 1 m)
    intro line m content target u heffect start
    obtain ⟨hcycle, hread⟩ := entered_of_lineEffect heffect
    refine ih _ target u start (hlinked.step line hcycle hread) ?_
    rw [List.length_append, List.length_singleton]
    omega

/-- The pass over a text comes to a text, which it enters through the lines of the chain. -/
inductive Visits (env : Environment) (file : Path) (t : Text) (m : Machine) :
    List Position → Path → Text → Machine → Prop
  | start : Visits env file t m [] file t m
  | enter {chain : List Position} {f target : Path} {u v content : Text}
    {before later : List Text} {begun after : Machine}
    (visited : Visits env file t m chain f u begun)
    (split : Text.lines u = before ++ content :: later)
    (reached : LinesEnd env chain f 1 before begun (.ok .next, after))
    (effect : lineEffect env chain ⟨f, before.length + 1⟩ after content = .ok (.enter target v)) :
    Visits env file t m (chain ++ [⟨f, before.length + 1⟩]) target v
      (after.note .detail
        ((Position.mk f (before.length + 1)).string ++ ": including " ++ target.string))

theorem Visits.linked {env : Environment} {file : Path} {t : Text} {m : Machine}
    {chain : List Position} {f : Path} {u : Text} {begun : Machine}
    (h : Visits env file t m chain f u begun) : Linked env.files chain f := by
  induction h with
  | start => exact .start env.files file
  | enter _ _ _ effect ih =>
    obtain ⟨hcycle, hread⟩ := entered_of_lineEffect effect
    exact ih.step _ hcycle hread

/-- **Includes come to an end.** The pass over every text ends, in one way only, and what it gives is
what the pass with its bound gives. Wherever it comes, the file and the files that it was included
from lead to different places, so they are at most one more than there are files. And an include
whose argument is a text is refused as a cycle exactly when its target leads to the place of the
current file or of one that it was included from. -/
theorem includes_end (env : Environment) (settings : Settings) (file : Path) (t : Text)
    (m : Machine) :
    (∃ r, TextEnds env [] file t m r ∧ (∀ r', TextEnds env [] file t m r' → r' = r) ∧
      processFile env settings file t m = renderResult settings t r) ∧
    (∀ chain f u begun, Visits env file t m chain f u begun →
      ((chainFiles chain f).map env.files.canonical).Nodup ∧
        (chainFiles chain f).length ≤ env.files.fileCount + 1) ∧
    (∀ chain here after content argument e name,
      lineKind env.marker content = .directive .includeFile argument →
      after.state.blocks.isActive = true →
      Directive.includeFile.expressionArgument argument = .ok e →
      e.eval (after.scope here).get? = .ok (.str name) →
        (lineEffect env chain here after content = .error ⟨.structural
            (.includeCycle (includeTarget here.file name)), argumentColumn content argument⟩ ↔
          ∃ f ∈ chainFiles chain here.file,
            env.files.canonical (includeTarget here.file name) = env.files.canonical f)) := by
  refine ⟨?_, ?_, ?_⟩
  · have hends : TextEnds env [] file t m (processText env (includeBound env.files) [] file t m) :=
      textEnds_processText env _ [] file t m (.start env.files file) (by unfold includeBound; omega)
    exact ⟨_, hends, fun r' hr' => hr'.unique hends, processFile_eq env settings file t m⟩
  · intro chain f u begun hvisits
    have hlinked := hvisits.linked
    refine ⟨hlinked.distinct, ?_⟩
    have hle := hlinked.length_le
    simp only [chainFiles, List.length_append, List.length_map, List.length_singleton]
    omega
  · intro chain here after content argument e name
    exact lineEffect_cycle_iff

/-! ## Two files that include each other -/

/-- Two files, of which each includes the other. The second one spells the first one differently. -/
def circle : Environment where
  marker := ['@']
  files :=
    { entries := [(["main".toList], .file (.text "@include \"part\"".toList)),
        (["part".toList], .file (.text "@include \"./main\"".toList))]
      workingDirectory := [] }
  extension := none

/-- The pass comes from the first file to the second one, and there it is stopped. -/
theorem circle_ends :
    (∃ r, TextEnds circle [] ⟨"main".toList⟩ "@include \"part\"".toList ⟨{}, .empty, [], []⟩ r) ∧
    ((chainFiles [⟨⟨"main".toList⟩, 1⟩] ⟨"part".toList⟩).map circle.files.canonical).Nodup ∧
    lineEffect circle [⟨⟨"main".toList⟩, 1⟩] ⟨⟨"part".toList⟩, 1⟩ ⟨{}, .empty, [], []⟩
        "@include \"./main\"".toList =
      .error ⟨.structural (.includeCycle ⟨"./main".toList⟩), 10⟩ := by
  obtain ⟨⟨r, hends, -⟩, hvisits, hcycle⟩ := includes_end circle {} ⟨"main".toList⟩
    "@include \"part\"".toList ⟨{}, .empty, [], []⟩
  have heffect : (lineEffect circle [] ⟨⟨"main".toList⟩, 1⟩ ⟨{}, .empty, [], []⟩
      "@include \"part\"".toList).toOption.bind Effect.entered? =
        some (⟨"part".toList⟩, "@include \"./main\"".toList) := by decide +kernel
  have hsplit : Text.lines "@include \"part\"".toList = [] ++ "@include \"part\"".toList :: [] := by
    decide +kernel
  have hpart := hvisits _ _ _ _ (.enter .start hsplit .nil (eq_enter_of_entered? heffect))
  have hname : ((Directive.includeFile.expressionArgument " \"./main\"".toList).toOption.bind
      fun e => (e.eval (Machine.scope ⟨{}, .empty, [], []⟩ ⟨⟨"part".toList⟩, 1⟩).get?).toOption) =
        some (.str "./main".toList) := by decide +kernel
  obtain ⟨e, hargument, hvalue⟩ := Option.bind_eq_some_iff.1 hname
  have hplace : ∃ f ∈ chainFiles [⟨⟨"main".toList⟩, 1⟩] ⟨"part".toList⟩,
      circle.files.canonical (includeTarget ⟨"part".toList⟩ "./main".toList) =
        circle.files.canonical f := ⟨⟨"main".toList⟩, by decide, by decide +kernel⟩
  refine ⟨⟨r, hends⟩, hpart.1, ?_⟩
  exact (hcycle [⟨⟨"main".toList⟩, 1⟩] ⟨⟨"part".toList⟩, 1⟩ ⟨{}, .empty, [], []⟩ _
    " \"./main\"".toList e "./main".toList (by decide +kernel) rfl (eq_ok_of_toOption hargument)
    (eq_ok_of_toOption hvalue)).2 hplace

end SourcePreprocessor
