import SourcePreprocessor.Proofs.Pass.IncludeChain

/-!
# Where a pass comes to

A pass over a text goes through its lines, and through the lines of the texts that it includes.
`AtLines` says that it has come to some lines that it still has to go through, in a text that was
included by the lines of a chain. From there it goes to the next line, or into a text that the line
includes.

A pass over a text ends well when the lines do and no block is left open (`textEnds_ok_iff`). What
every line keeps on its own, the pass keeps as a whole (`TextEnds.keeps`).
-/

namespace SourcePreprocessor

namespace LinesEnd

variable {env : Environment} {chain : List Position} {file : Path} {before later : List Text}

theorem length_cons_add (line : Nat) (content : Text) (contents : List Text) :
    line + (content :: contents).length = line + 1 + contents.length := by
  rw [List.length_cons]
  omega

/-- Lines that go on, and the lines after them. -/
theorem append : ∀ {line : Nat} {m mid : Machine} {r : Processed},
    LinesEnd env chain file line before m (.ok .next, mid) →
    LinesEnd env chain file (line + before.length) later mid r →
      LinesEnd env chain file line (before ++ later) m r := by
  induction before with
  | nil =>
    intro line m mid r h hlater
    cases h
    exact hlater
  | cons first before ih =>
    intro line m mid r h hlater
    rw [length_cons_add] at hlater
    cases h with
    | next hfirst hrest => exact .next hfirst (ih hrest hlater)

/-- Lines at which the pass stops, whatever comes after them. -/
theorem append_stop : ∀ {line : Nat} {m after : Machine},
    LinesEnd env chain file line before m (.ok .stop, after) →
      LinesEnd env chain file line (before ++ later) m (.ok .stop, after) := by
  induction before with
  | nil => nofun
  | cons first before ih =>
    intro line m after h
    cases h with
    | next hfirst hrest => exact .next hfirst (ih hrest)
    | stop hfirst => exact .stop hfirst

/-- Where some of the lines go on, the pass over all of them is the pass over the others. -/
theorem of_append : ∀ {line : Nat} {m mid : Machine} {r : Processed},
    LinesEnd env chain file line (before ++ later) m r →
    LinesEnd env chain file line before m (.ok .next, mid) →
      LinesEnd env chain file (line + before.length) later mid r := by
  induction before with
  | nil =>
    intro line m mid r h hbefore
    cases hbefore
    exact h
  | cons first before ih =>
    intro line m mid r h hbefore
    rw [length_cons_add]
    cases hbefore with
    | next hfirst hrest =>
      cases h with
      | next hfirst' hrest' =>
        obtain ⟨-, rfl⟩ := Prod.mk.inj (hfirst.unique hfirst')
        exact ih hrest' hrest
      | stop hfirst' => nomatch hfirst.unique hfirst'
      | fail hfirst' => nomatch hfirst.unique hfirst'

/-- Lines that go on, and one more that does. -/
theorem concat {line : Nat} {m mid after : Machine} {content : Text}
    (h : LinesEnd env chain file line before m (.ok .next, mid))
    (hlast : LineEnds env chain ⟨file, line + before.length⟩ content mid (.ok .next, after)) :
    LinesEnd env chain file line (before ++ [content]) m (.ok .next, after) :=
  h.append (.next hlast .nil)

end LinesEnd

section Places

variable (env : Environment) (file : Path) (t : Text) (m : Machine)

/-- The pass over a text has these lines of a text that it visits still to go through, the first of
which has the given number. -/
def AtLines (chain : List Position) (f : Path) (line : Nat) (contents : List Text) (mid : Machine) :
    Prop :=
  ∃ u before begun, Visits env file t m chain f u begun ∧ Text.lines u = before ++ contents ∧
    LinesEnd env chain f 1 before begun (.ok .next, mid) ∧ line = before.length + 1

end Places

variable {env : Environment} {file : Path} {t : Text} {m : Machine} {chain : List Position}
  {f : Path} {line : Nat} {content : Text} {contents : List Text} {mid : Machine}

namespace AtLines

/-- A text that is visited is gone through from its first line on. -/
theorem start {u : Text} {begun : Machine} (h : Visits env file t m chain f u begun) :
    AtLines env file t m chain f 1 (Text.lines u) begun := ⟨u, [], begun, h, rfl, .nil, rfl⟩

/-- After a line that goes on comes the next. -/
theorem next {after : Machine} (h : AtLines env file t m chain f line (content :: contents) mid)
    (hline : LineEnds env chain ⟨f, line⟩ content mid (.ok .next, after)) :
    AtLines env file t m chain f (line + 1) contents after := by
  obtain ⟨u, before, begun, hvisits, hsplit, hreached, rfl⟩ := h
  rw [Nat.add_comm before.length] at hline
  refine ⟨u, before ++ [content], begun, hvisits, ?_, hreached.concat hline, ?_⟩
  · rw [hsplit, List.append_assoc]
    rfl
  · rw [List.length_append, List.length_singleton]

/-- A line that includes a text leads to it. -/
theorem enter (h : AtLines env file t m chain f line (content :: contents) mid) {target : Path}
    {v : Text} (heffect : lineEffect env chain ⟨f, line⟩ mid content = .ok (.enter target v)) :
    Visits env file t m (chain ++ [⟨f, line⟩]) target v
      (mid.note .detail ((Position.mk f line).string ++ ": including " ++ target.string)) := by
  obtain ⟨u, before, begun, hvisits, hsplit, hreached, rfl⟩ := h
  exact .enter hvisits hsplit hreached heffect

/-- A line that is still to go stands in a text that is visited, with its number. -/
theorem visited (h : AtLines env file t m chain f line (content :: contents) mid) :
    ∃ u begun n, Visits env file t m chain f u begun ∧ (Text.lines u)[n]? = some content ∧
      line = n + 1 := by
  obtain ⟨u, before, begun, hvisits, hsplit, -, rfl⟩ := h
  refine ⟨u, begun, before.length, hvisits, ?_, rfl⟩
  rw [hsplit, List.getElem?_append_right (Nat.le_refl _), Nat.sub_self]
  rfl

end AtLines

/-! ## Success -/

/-- The check at the end of a text lets a pass go on that has left no block open. -/
theorem goOn_checkClosed_eq_ok_iff {r : Processed} {chain : List Position} {file : Path}
    {depth : Nat} {flow : Flow} {after : Machine} :
    goOn r (checkClosed chain file depth) = (.ok flow, after) ↔
      r = (.ok flow, after) ∧ (flow = .next → after.state.blocks.unclosed? depth = none) := by
  match r with
  | (.error d, last) => exact ⟨nofun, fun h => h.1⟩
  | (.ok .stop, last) =>
    refine ⟨fun h => ⟨h, fun hnext => ?_⟩, fun h => h.1⟩
    subst hnext
    nomatch h
  | (.ok .next, last) =>
    show checkClosed chain file depth last = _ ↔ _
    unfold checkClosed
    split
    · next hclosed =>
      refine ⟨fun h => ⟨h, fun _ => ?_⟩, fun h => h.1⟩
      obtain ⟨-, rfl⟩ := Prod.mk.inj h
      exact hclosed
    · next frame hopen =>
      refine ⟨nofun, fun h => ?_⟩
      obtain ⟨hflow, rfl⟩ := Prod.mk.inj h.1
      rw [h.2 (Except.ok.inj hflow).symm] at hopen
      nomatch hopen

theorem TextEnds.exists_lines {env : Environment} {chain : List Position} {file : Path} {t : Text}
    {m : Machine} {r : Processed} (h : TextEnds env chain file t m r) :
    ∃ last, LinesEnd env chain file 1 (Text.lines t) m last ∧
      r = goOn last (checkClosed chain file m.state.blocks.depth) := by
  cases h with
  | intro lines => exact ⟨_, lines, rfl⟩

/-- A text ends well when its lines do and no block is left open. -/
theorem textEnds_ok_iff {env : Environment} {chain : List Position} {file : Path} {t : Text}
    {m after : Machine} {flow : Flow} :
    TextEnds env chain file t m (.ok flow, after) ↔
      LinesEnd env chain file 1 (Text.lines t) m (.ok flow, after) ∧
        (flow = .next → after.state.blocks.unclosed? m.state.blocks.depth = none) := by
  constructor
  · intro h
    obtain ⟨r, hlines, hr⟩ := h.exists_lines
    obtain ⟨rfl, hclosed⟩ := goOn_checkClosed_eq_ok_iff.1 hr.symm
    exact ⟨hlines, hclosed⟩
  · intro ⟨hlines, hclosed⟩
    have hgoOn : goOn (.ok flow, after) (checkClosed chain file m.state.blocks.depth) =
        (.ok flow, after) := goOn_checkClosed_eq_ok_iff.2 ⟨rfl, hclosed⟩
    exact hgoOn ▸ .intro hlines

/-- The pass over a file is the finite derivation for its text. -/
theorem textEnds_processFile (env : Environment) (file : Path) (t : Text) (m : Machine) :
    TextEnds env [] file t m (processText env (includeBound env.files) [] file t m) :=
  textEnds_processText env _ [] file t m (.start env.files file) (by unfold includeBound; omega)

/-- The pass over lines of a text that is visited is a finite derivation, too. -/
theorem Visits.linesEnd {u : Text} {begun : Machine} (h : Visits env file t m chain f u begun)
    (line : Nat) (contents : List Text) (mid : Machine) :
    LinesEnd env chain f line contents mid
      (processLines (processText env (includeBound env.files)) env chain f line contents mid) := by
  refine linesEnd_processLines ?_ contents line mid
  intro line mid content target v heffect start
  obtain ⟨hcycle, hread⟩ := entered_of_lineEffect heffect
  refine textEnds_processText env _ _ target v start (h.linked.step line hcycle hread) ?_
  unfold includeBound
  omega

/-- The pass comes to the lines of a visited text after some that go on. -/
theorem Visits.atLines {u : Text} {begun : Machine} (h : Visits env file t m chain f u begun)
    (before : List Text) (hsplit : Text.lines u = before ++ contents)
    (hnext : (processLines (processText env (includeBound env.files)) env chain f 1 before
      begun).1.toOption = some .next) :
    AtLines env file t m chain f (before.length + 1) contents
      (processLines (processText env (includeBound env.files)) env chain f 1 before begun).2 := by
  have hreached := h.linesEnd 1 before begun
  rw [eq_next_of_toOption hnext] at hreached
  exact ⟨u, before, begun, h, hsplit, hreached, rfl⟩

/-- A file that succeeds is a text that ends well. -/
theorem textEnds_of_processFile {settings : Settings} {output : Text} {after : Machine}
    (h : processFile env settings file t m = (.ok output, after)) :
    ∃ flow, TextEnds env [] file t m (.ok flow, after) := by
  have hends := textEnds_processFile env file t m
  rw [processFile_eq] at h
  revert h hends
  obtain ⟨_ | flow, last⟩ := processText env (includeBound env.files) [] file t m
  · nofun
  · intro h hends
    obtain ⟨-, rfl⟩ := Prod.mk.inj h
    exact ⟨flow, hends⟩

theorem processFile_of_textEnds {flow : Flow} {after : Machine}
    (h : TextEnds env [] file t m (.ok flow, after)) (settings : Settings) :
    processFile env settings file t m =
      (.ok (renderOutput settings t after.state.lines), after) := by
  rw [processFile_eq, (textEnds_processFile env file t m).unique h]
  rfl

/-! ## What every line keeps -/

/-- What is said of machines is kept by every line that the pass comes to and that enters no text,
and it has nothing to do with the log. -/
structure KeptByLines (env : Environment) (file : Path) (t : Text) (m : Machine)
    (Holds : Machine → Prop) : Prop where
  line : ∀ {chain : List Position} {f : Path} {line : Nat} {content : Text} {later : List Text}
    {mid : Machine}, AtLines env file t m chain f line (content :: later) mid → Holds mid →
      Holds (processLine skipFile env chain ⟨f, line⟩ content mid).2
  note : ∀ {mid : Machine} {level : LogLevel} {text : String}, Holds mid →
    Holds (mid.note level text)

theorem snd_goOn_checkClosed (r : Processed) (chain : List Position) (file : Path) (depth : Nat) :
    (goOn r (checkClosed chain file depth)).2 = r.2 := by
  match r with
  | (.error d, after) => rfl
  | (.ok .stop, after) => rfl
  | (.ok .next, after) =>
    show (checkClosed chain file depth after).2 = after
    unfold checkClosed
    cases after.state.blocks.unclosed? depth <;> rfl

section Kept

variable {Holds : Machine → Prop}

mutual

theorem TextEnds.keeps (hkept : KeptByLines env file t m Holds) {chain : List Position} {f : Path}
    {u : Text} {begun : Machine} {r : Processed} (h : TextEnds env chain f u begun r)
    (hvisits : Visits env file t m chain f u begun) (hbegun : Holds begun) : Holds r.2 :=
  match h with
  | .intro lines => by
    rw [snd_goOn_checkClosed]
    exact lines.keeps hkept (.start hvisits) hbegun

theorem LinesEnd.keeps (hkept : KeptByLines env file t m Holds) {chain : List Position} {f : Path}
    {line : Nat} {contents : List Text} {mid : Machine} {r : Processed}
    (h : LinesEnd env chain f line contents mid r)
    (hat : AtLines env file t m chain f line contents mid) (hmid : Holds mid) : Holds r.2 :=
  match h with
  | .nil => hmid
  | .next first rest => rest.keeps hkept (hat.next first) (first.keeps hkept hat hmid)
  | .stop first => hkept.note (first.keeps hkept hat hmid)
  | .fail first => first.keeps hkept hat hmid

theorem LineEnds.keeps (hkept : KeptByLines env file t m Holds) {chain : List Position}
    {here : Position} {content : Text} {contents : List Text} {mid : Machine} {r : Processed}
    (h : LineEnds env chain here content mid r)
    (hat : AtLines env file t m chain here.file here.line (content :: contents) mid)
    (hmid : Holds mid) : Holds r.2 :=
  match h with
  | .alone _ => hkept.line hat hmid
  | .entering effect text => text.keeps hkept (hat.enter effect) (hkept.note hmid)

end

end Kept

/-- What a file starts with and every line keeps holds at its end. -/
theorem processFile_keeps {Holds : Machine → Prop} (hkept : KeptByLines env file t m Holds)
    (hstart : Holds m) (settings : Settings) : Holds (processFile env settings file t m).2 := by
  have hend := (textEnds_processFile env file t m).keeps hkept .start hstart
  rw [processFile_eq]
  revert hend
  obtain ⟨_ | _, after⟩ := processText env (includeBound env.files) [] file t m
  · exact id
  · exact id

end SourcePreprocessor
