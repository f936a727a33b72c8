import SourcePreprocessor.Proofs.File.Making
import SourcePreprocessor.Proofs.Pass.Inlining

/-!
# A pass in a larger tree

Of all the files that there are, a pass looks only at those that it includes. When these hold the
same in a larger tree, the pass does the same there:

> `TextEnds.withFiles`: over places at which every include does the same with other files, so does
> the pass;
> `processFile_larger`: a pass over a file that succeeds gives the same output in a larger tree and
> ends with the same machine.

A pass that fails can fail otherwise: a file that was missing may be there.
-/

namespace SourcePreprocessor

/-- The environment with other files. -/
def Environment.withFiles (env : Environment) (files : FileTree) : Environment := { env with files }

/-- A larger tree in which the files that a pass includes hold what they did. -/
structure HoldsAlike (env : Environment) (file : Path) (t : Text) (m : Machine) (other : FileTree) :
    Prop where
  within : env.files.Within other
  /-- The pass starts from a file that is there, which an include can come back to. -/
  starts : env.files.exists? file = true
  included : ∀ chain f u begun, Visits env file t m chain f u begun → chain ≠ [] →
    other.readText f = .ok u

/-- A path that leads to something leads there in a larger tree, too. -/
theorem FileTree.Within.canonical {tree other : FileTree} (h : tree.Within other) {path : Path}
    (hpath : tree.exists? path = true) : other.canonical path = tree.canonical path := by
  have hother := h.exists? hpath
  rw [FileTree.exists?_iff] at hpath hother
  unfold FileTree.canonical FileTree.locate?
  rw [hpath, hother, FileTree.place_eq h.workingDirectory]

theorem FileTree.exists?_of_readText {tree : FileTree} {path : Path} {t : Text}
    (h : tree.readText path = .ok t) : tree.exists? path = true := by
  obtain ⟨location, -, hlocation⟩ := FileTree.mem_entries_of_readText h
  exact Option.isSome_iff_exists.2 ⟨location, hlocation⟩

section Lines

variable {env : Environment} {chain : List Position} {here : Position} {m : Machine}
  {content : Text}

/-- Only an include looks at the files. -/
theorem lineEffect_withFiles (hi : (lineKind env.marker content).isInclude = false)
    (files : FileTree) :
    lineEffect (env.withFiles files) chain here m content =
      lineEffect env chain here m content := by
  unfold lineEffect Environment.withFiles
  cases hkind : lineKind env.marker content with
  | plain => rfl
  | unknown rest => rfl
  | directive d argument =>
    have hd : d ≠ .includeFile := by
      rintro rfl
      rw [hkind] at hi
      nomatch hi
    dsimp only
    rw [directiveEffect_congr hd (fun _ _ => rfl) files chain chain]

/-- A line that enters no file asks for the same whatever the files are. -/
theorem lineEffect_withFiles_of_own {e : Effect} (he : lineEffect env chain here m content = .ok e)
    (hown : ∀ file t, e ≠ .enter file t) (files : FileTree) :
    lineEffect (env.withFiles files) chain here m content = .ok e := by
  by_cases hi : (lineKind env.marker content).isInclude = true
  · obtain ⟨argument, hkind⟩ := LineKind.eq_of_isInclude hi
    have hinert : (lineKind env.marker content).isInert = true := by
      rw [hkind]
      rfl
    by_cases hactive : m.state.blocks.isActive = true
    · rw [lineEffect_include hkind hactive] at he
      obtain ⟨file, t, henter⟩ := includeEffect_eq_enter (mapError_eq_ok_iff.1 he)
      exact absurd henter (hown file t)
    · have hinert' : (lineKind (env.withFiles files).marker content).isInert = true := hinert
      rw [lineEffect_inert hinert (Bool.eq_false_iff.2 hactive)] at he
      rw [lineEffect_inert hinert' (Bool.eq_false_iff.2 hactive), he]
  · rw [lineEffect_withFiles (by simpa using hi), he]

theorem processLine_withFiles {flow : Flow} {after : Machine}
    (hown : ∀ file t, lineEffect env chain here m content ≠ .ok (.enter file t))
    (hr : processLine skipFile env chain here content m = (.ok flow, after)) (files : FileTree) :
    (∀ file t, lineEffect (env.withFiles files) chain here m content ≠ .ok (.enter file t)) ∧
      processLine skipFile (env.withFiles files) chain here content m = (.ok flow, after) := by
  cases he : lineEffect env chain here m content with
  | error fault =>
    unfold processLine at hr
    rw [he] at hr
    nomatch hr
  | ok e =>
    have hne : ∀ file t, e ≠ .enter file t := fun file t heq => hown file t (heq ▸ he)
    have he' := lineEffect_withFiles_of_own he hne files
    refine ⟨fun file t henter => hne file t (Except.ok.inj (he'.symm.trans henter)), ?_⟩
    unfold processLine at hr ⊢
    rw [he] at hr
    rw [he']
    exact hr

/-- An include leads to the same place in a larger tree, when the files it came from do and there is
a text at its target. -/
theorem lineEffect_enter_withFiles {target : Path} {t t' : Text} {other : FileTree}
    (h : lineEffect env chain here m content = .ok (.enter target t))
    (hwithin : env.files.Within other)
    (hchain : ∀ f ∈ chainFiles chain here.file, other.canonical f = env.files.canonical f)
    (hread : other.readText target = .ok t') :
    lineEffect (env.withFiles other) chain here m content = .ok (.enter target t') := by
  obtain ⟨argument, e, name, hentering, rfl⟩ := entering_of_lineEffect h
  have hcycle : isCycle other chain here.file (includeTarget here.file name) = false := by
    rw [Bool.eq_false_iff]
    intro hcycle
    obtain ⟨f, hf, hsame⟩ := isCycle_iff.1 hcycle
    have htarget := FileTree.exists?_of_readText hentering.read
    have hfirst : isCycle env.files chain here.file (includeTarget here.file name) = true :=
      isCycle_iff.2 ⟨f, hf, (hwithin.canonical htarget).symm.trans (hsame.trans (hchain f hf))⟩
    rw [hentering.cycle] at hfirst
    nomatch hfirst
  have hentering' : Entering (env.withFiles other) chain here m content argument e name t' :=
    ⟨hentering.kind, hentering.active, hentering.expression, hentering.value, hcycle, hread⟩
  exact hentering'.lineEffect

end Lines

/-- What a pass includes was read from the files. -/
theorem readText_of_visits {env : Environment} {file : Path} {t : Text} {m : Machine}
    {chain : List Position} {f : Path} {u : Text} {begun : Machine}
    (h : Visits env file t m chain f u begun) (hne : chain ≠ []) :
    env.files.readText f = .ok u := by
  cases h with
  | start => exact absurd rfl hne
  | enter _ _ _ effect => exact (entered_of_lineEffect effect).2

/-- All the files that a pass came by are there. -/
theorem Visits.exists? {env : Environment} {file : Path} {t : Text} {m : Machine}
    (hfile : env.files.exists? file = true) {chain : List Position} {f : Path} {u : Text}
    {begun : Machine} (h : Visits env file t m chain f u begun) :
    ∀ g ∈ chainFiles chain f, env.files.exists? g = true := by
  induction h with
  | start => exact List.forall_mem_singleton.2 hfile
  | enter _ _ _ effect ih =>
    rw [Linked.chainFiles_concat, List.forall_mem_append, List.forall_mem_singleton]
    exact ⟨ih, FileTree.exists?_of_readText (entered_of_lineEffect effect).2⟩

/-! ## Going through the same lines -/

/-- Places that a pass does not leave by going on, and at which every include does the same with the
other files. -/
structure ReadsAlike (env : Environment) (other : FileTree)
    (At : List Position → Path → Nat → List Text → Machine → Prop) : Prop where
  next : ∀ {chain : List Position} {f : Path} {line : Nat} {content : Text} {contents : List Text}
    {mid after : Machine}, At chain f line (content :: contents) mid →
      LineEnds env chain ⟨f, line⟩ content mid (.ok .next, after) →
        At chain f (line + 1) contents after
  enter : ∀ {chain : List Position} {f : Path} {line : Nat} {content : Text} {contents : List Text}
    {mid : Machine} {target : Path} {v : Text}, At chain f line (content :: contents) mid →
      lineEffect env chain ⟨f, line⟩ mid content = .ok (.enter target v) →
        lineEffect (env.withFiles other) chain ⟨f, line⟩ mid content = .ok (.enter target v) ∧
          At (chain ++ [⟨f, line⟩]) target 1 (Text.lines v)
            (mid.note .detail ((Position.mk f line).string ++ ": including " ++ target.string))

section Derivations

variable {env : Environment} {other : FileTree}
  {At : List Position → Path → Nat → List Text → Machine → Prop}

/-! The induction is on the derivation of the pass with the first files, over the places that it
comes to. A pass that fails is left out: a missing file can be there among the other ones. -/

mutual

theorem TextEnds.withFiles (halike : ReadsAlike env other At) {chain : List Position} {f : Path}
    {u : Text} {begun : Machine} {r : Processed} (h : TextEnds env chain f u begun r)
    (hat : At chain f 1 (Text.lines u) begun) {flow : Flow} {after : Machine}
    (hr : r = (.ok flow, after)) : TextEnds (env.withFiles other) chain f u begun r :=
  match h with
  | .intro lines => by
    obtain ⟨hlines, -⟩ := goOn_checkClosed_eq_ok_iff.1 hr
    exact .intro (lines.withFiles halike hat hlines)

theorem LinesEnd.withFiles (halike : ReadsAlike env other At) {chain : List Position} {f : Path}
    {line : Nat} {contents : List Text} {mid : Machine} {r : Processed}
    (h : LinesEnd env chain f line contents mid r) (hat : At chain f line contents mid)
    {flow : Flow} {after : Machine} (hr : r = (.ok flow, after)) :
    LinesEnd (env.withFiles other) chain f line contents mid r :=
  match h with
  | .nil => .nil
  | .next first rest =>
    .next (first.withFiles halike hat rfl) (rest.withFiles halike (halike.next hat first) hr)
  | .stop first => .stop (first.withFiles halike hat rfl)
  | .fail _ => nomatch hr

theorem LineEnds.withFiles (halike : ReadsAlike env other At) {chain : List Position}
    {here : Position} {content : Text} {contents : List Text} {mid : Machine} {r : Processed}
    (h : LineEnds env chain here content mid r)
    (hat : At chain here.file here.line (content :: contents) mid) {flow : Flow} {after : Machine}
    (hr : r = (.ok flow, after)) : LineEnds (env.withFiles other) chain here content mid r :=
  match h with
  | .alone own => by
    obtain ⟨own', hline⟩ := processLine_withFiles own hr other
    exact (hline.trans hr.symm) ▸ .alone own'
  | .entering effect text => by
    obtain ⟨heffect, hentered⟩ := halike.enter hat effect
    exact .entering heffect (text.withFiles halike hentered hr)

end

end Derivations

section Passes

variable {env : Environment} {file : Path} {t : Text} {m : Machine} {other : FileTree}

/-- Where the files that a pass includes hold the same, it does the same wherever it comes. -/
theorem HoldsAlike.readsAlike (halike : HoldsAlike env file t m other) :
    ReadsAlike env other (AtLines env file t m) where
  next hat hline := hat.next hline
  enter hat heffect := by
    obtain ⟨u, begun, -, hvisits, -⟩ := hat.visited
    have hread := halike.included _ _ _ _ (hat.enter heffect) (List.concat_ne_nil _ _)
    have hchain := fun f hf => halike.within.canonical (hvisits.exists? halike.starts f hf)
    exact ⟨lineEffect_enter_withFiles heffect halike.within hchain hread, .start (hat.enter heffect)⟩

/-- A pass over a file that succeeds does the same in a larger tree in which the files that it
includes hold the same. -/
theorem processFile_larger {settings : Settings} {output : Text} {after : Machine}
    (halike : HoldsAlike env file t m other)
    (h : processFile env settings file t m = (.ok output, after)) :
    processFile (env.withFiles other) settings file t m = (.ok output, after) := by
  obtain ⟨flow, hends⟩ := textEnds_of_processFile h
  rw [← h, processFile_of_textEnds hends settings]
  exact processFile_of_textEnds (hends.withFiles halike.readsAlike (.start .start) rfl) settings

end Passes

end SourcePreprocessor
