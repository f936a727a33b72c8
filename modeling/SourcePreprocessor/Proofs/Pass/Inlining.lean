import SourcePreprocessor.Proofs.File.WellFormed
import SourcePreprocessor.Proofs.Pass.Placement
import SourcePreprocessor.Proofs.Pass.Visiting

/-!
# An include is its lines

Processing a file in place should be the same as writing its lines in place of the include. The
lines then stand in another file, at other numbers, and fewer files are on the way to them. When
nothing looks at where it stands (`PlaceBlind`), what is left to differ is which files can be
included from there. A place *covers* another one when it has the same file or one beside it, and
would take no more files for a cycle (`Covers`).

> `Covers.step`: what is included from a place is covered by what is included, under the same name,
> from a place that covers it;
> `LinesEnd.elsewhere`: so a pass that succeeds does the same at a place that covers its own;
> `processFile_inlined`: and an include of a file in the same directory can be replaced by the lines
> of that file.

The last statement needs a word on names. A path has at most 4095 bytes, and a file that is included
by an absolute name can spell the directory shorter than the file that includes it. A name that just
fits after the one folder may not fit after the other one then, and the lines fail where the include
succeeds (`longFolder_not_inlined`). So the paths have to fit from the including file, too
(`PathsFit`). They do when the name is relative (`pathsFit_of_relative`).
-/

namespace SourcePreprocessor

/-! ## Places to include from -/

/-- Whatever can be included from the first place can be from the second one, too, if the path fits:
its file is the same or lies beside the first one, and no further place would make a cycle. -/
structure Covers (files : FileTree) (chain : List Position) (file : Path) (chain' : List Position)
    (file' : Path) : Prop where
  path : file' = file ∨ files.Beside file file'
  places : ∀ f' ∈ chainFiles chain' file', ∃ f ∈ chainFiles chain file,
    files.canonical f' = files.canonical f

namespace Covers

variable {files : FileTree} {chain chain' : List Position} {file file' : Path} {name t : Text}

theorem refl (files : FileTree) (chain : List Position) (file : Path) :
    Covers files chain file chain file := ⟨.inl rfl, fun f hf => ⟨f, hf, rfl⟩⟩

/-- A file can stand in for one beside it that it includes. -/
theorem includer {target : Path} (h : files.Beside target file) (line : Nat) :
    Covers files [⟨file, line⟩] target [] file := by
  refine ⟨.inr h, fun f' hf' => ⟨f', ?_, rfl⟩⟩
  rw [List.mem_singleton.1 hf']
  exact List.mem_cons_self

section Target

variable (h : Covers files chain file chain' file')
  (hread : files.readText (includeTarget file name) = .ok t)
  (hfits : Text.byteSize (includeTarget file' name).text ≤ 4095)

include h hread hfits

/-- A name that can be read leads to the same file from both places. -/
theorem target :
    files.resolve (includeTarget file' name) = files.resolve (includeTarget file name) ∧
      (includeTarget file' name = includeTarget file name ∨
        files.Beside (includeTarget file name) (includeTarget file' name)) := by
  cases habsolute : (Path.mk name).isAbsolute with
  | true =>
    rw [includeTarget_absolute file habsolute, includeTarget_absolute file' habsolute]
    exact ⟨rfl, .inl rfl⟩
  | false =>
    rcases h.path with hsame | hbeside
    · rw [hsame]
      exact ⟨rfl, .inl rfl⟩
    · obtain ⟨hresolve, hnext⟩ := hbeside.enter habsolute hread hfits
      exact ⟨hresolve, .inr hnext⟩

theorem canonical_target :
    files.canonical (includeTarget file' name) = files.canonical (includeTarget file name) :=
  FileTree.canonical_congr (h.target hread hfits).1 hread

/-- So what is included from both places is covered again. -/
theorem step (line line' : Nat) :
    Covers files (chain ++ [⟨file, line⟩]) (includeTarget file name)
      (chain' ++ [⟨file', line'⟩]) (includeTarget file' name) := by
  refine ⟨(h.target hread hfits).2, ?_⟩
  rw [Linked.chainFiles_concat, Linked.chainFiles_concat]
  intro f' hf'
  rcases List.mem_append.1 hf' with hf' | hf'
  · obtain ⟨f, hf, hcanonical⟩ := h.places f' hf'
    exact ⟨f, List.mem_append_left _ hf, hcanonical⟩
  · rw [List.mem_singleton.1 hf']
    exact ⟨_, List.mem_append_right _ List.mem_cons_self, h.canonical_target hread hfits⟩

theorem isCycle_eq_false
    (hcycle : isCycle files chain file (includeTarget file name) = false) :
    isCycle files chain' file' (includeTarget file' name) = false := by
  rw [Bool.eq_false_iff, ne_eq, isCycle_iff]
  intro hplace
  obtain ⟨f', hf', hsame⟩ := hplace
  obtain ⟨f, hf, hcanonical⟩ := h.places f' hf'
  have htarget : isCycle files chain file (includeTarget file name) = true :=
    isCycle_iff.2 ⟨f, hf, (h.canonical_target hread hfits).symm.trans (hsame.trans hcanonical)⟩
  rw [hcycle] at htarget
  nomatch htarget

end Target

end Covers

/-- A placeless line that enters a file from one place does so from any place that covers it. -/
theorem Entering.elsewhere {env : Environment} {chain chain' : List Position}
    {here here' : Position} {m m' : Machine} {content argument name t : Text} {e : Expression}
    (h : Entering env chain here m content argument e name t) (hcontent : Placeless content)
    (hm : m'.unplaced = m.unplaced) (hcovers : Covers env.files chain here.file chain' here'.file)
    (hfits : Text.byteSize (includeTarget here'.file name).text ≤ 4095) :
    Entering env chain' here' m' content argument e name t where
  kind := h.kind
  active := (Machine.isActive_congr hm).trans h.active
  expression := h.expression
  value := by
    have hargument : Text.trim argument <:+: content :=
      (Text.trim_part argument).trans (infix_of_lineKind h.kind)
    rw [eval_agreeOn (parse_of_expressionArgument h.expression)
      ((hcontent.agreeOn hm here here').mono hargument)]
    exact h.value
  cycle := hcovers.isCycle_eq_false h.read hfits h.cycle
  read := (FileTree.readText_congr (hcovers.target h.read hfits).1).trans h.read

/-! ## Passes at two places -/

/-- Nothing looks at where it stands: no text that the pass over the file comes to mentions a
variable that tells it, and the extension ignores the positions of actions. -/
structure PlaceBlind (env : Environment) (file : Path) (t : Text) (m : Machine) : Prop where
  texts : ∀ chain f u begun, Visits env file t m chain f u begun → Placeless u
  extension : ∀ x, env.extension = some x → x.IgnoresPositions

section Spellings

variable (env : Environment) (file : Path) (t : Text) (m : Machine)

/-- What the pass over a file includes from one file on, directly or by what is included, and the
paths that the same names make from another file instead. -/
inductive Respelled (chain₀ : List Position) (f₀ f₀' : Path) : List Position → Path → Path → Prop
  | start : Respelled chain₀ f₀ f₀' chain₀ f₀ f₀'
  | nested {chain : List Position} {f f' : Path} {line : Nat} {content : Text} {later : List Text}
      {mid : Machine} {argument : Text} {e : Expression} {name v : Text} :
      Respelled chain₀ f₀ f₀' chain f f' →
      AtLines env file t m chain f line (content :: later) mid →
      Entering env chain ⟨f, line⟩ mid content argument e name v →
        Respelled chain₀ f₀ f₀' (chain ++ [⟨f, line⟩]) (includeTarget f name)
          (includeTarget f' name)

/-- The paths that the names make from the other file are not too long. -/
def PathsFit (chain₀ : List Position) (f₀ f₀' : Path) : Prop :=
  ∀ {chain : List Position} {f f' : Path} {line : Nat} {content : Text} {later : List Text}
    {mid : Machine} {argument : Text} {e : Expression} {name v : Text},
    Respelled env file t m chain₀ f₀ f₀' chain f f' →
    AtLines env file t m chain f line (content :: later) mid →
    Entering env chain ⟨f, line⟩ mid content argument e name v →
      Text.byteSize (includeTarget f' name).text ≤ 4095

end Spellings

section Fits

variable {env : Environment} {file : Path} {t : Text} {m : Machine} {chain₀ chain : List Position}
  {f₀ f₀' f f' : Path}

theorem Respelled.eq (h : Respelled env file t m chain₀ f₀ f₀ chain f f') : f' = f := by
  induction h with
  | start => rfl
  | nested _ _ _ ih => rw [ih]

/-- The paths fit that could be read. -/
theorem pathsFit_refl (env : Environment) (file : Path) (t : Text) (m : Machine)
    (chain₀ : List Position) (f₀ : Path) : PathsFit env file t m chain₀ f₀ f₀ := by
  intro chain f f' line content later mid argument e name v hspelled _ hentering
  rw [hspelled.eq]
  exact FileTree.byteSize_le_of_readText hentering.read

/-- A file that is included by a relative name does not spell its directory shorter, so whatever it
includes can be included from the including file. -/
theorem pathsFit_of_relative {target : Path} {name u : Text}
    (hname : (Path.mk name).isAbsolute = false) (htarget : target = includeTarget file name)
    (hread : env.files.readText target = .ok u) (hbeside : env.files.Beside target file) :
    PathsFit env file t m chain₀ target file := by
  subst htarget
  obtain ⟨location, hlocation, hfile⟩ := hbeside
  have hstart : env.files.StandsFor (includeTarget file name) file :=
    .inr ⟨⟨location, hlocation, hfile⟩, FileTree.folderFits_of_relative hname hread hfile⟩
  have hall : ∀ {chain f f'},
      Respelled env file t m chain₀ (includeTarget file name) file chain f f' →
        env.files.StandsFor f f' := by
    intro chain f f' hspelled
    induction hspelled with
    | start => exact hstart
    | nested _ _ hentering ih => exact (ih.enter hentering.read).2
  intro chain f f' line content later mid argument e name v hspelled _ hentering
  exact ((hall hspelled).enter hentering.read).1

end Fits

theorem unclosed?_congr {m m' begun begun' : Machine} (hm : m'.unplaced = m.unplaced)
    (hbegun : begun'.unplaced = begun.unplaced)
    (h : m.state.blocks.unclosed? begun.state.blocks.depth = none) :
    m'.state.blocks.unclosed? begun'.state.blocks.depth = none := by
  rw [← Option.map_eq_none_iff, ← BlockStack.unclosed?_unplaced, Machine.blocks_congr hm,
    ← BlockStack.depth_unplaced, Machine.blocks_congr hbegun, BlockStack.depth_unplaced,
    BlockStack.unclosed?_unplaced, h]
  rfl

section Passes

variable {env : Environment} {file : Path} {t : Text} {m : Machine} {chain₀ : List Position}
  {f₀ f₀' : Path}

theorem PlaceBlind.placeless (hblind : PlaceBlind env file t m) {chain : List Position} {f : Path}
    {line : Nat} {content : Text} {contents : List Text} {mid : Machine}
    (h : AtLines env file t m chain f line (content :: contents) mid) : Placeless content := by
  obtain ⟨u, begun, n, hvisits, hcontent, -⟩ := h.visited
  exact (hblind.texts chain f u begun hvisits).mono
    (Text.infix_of_mem_lines (List.mem_of_getElem? hcontent))

/-! A pass that succeeds does the same at any place that covers its own. The induction is on the
derivation of the pass; `AtLines` and `Visits` carry where it has come to, so that what holds of
every text on the way is at hand. -/

mutual

theorem TextEnds.elsewhere (hblind : PlaceBlind env file t m)
    (hfits : PathsFit env file t m chain₀ f₀ f₀') {chain : List Position} {f : Path}
    {u : Text} {begun : Machine} {r : Processed} (h : TextEnds env chain f u begun r)
    (hvisits : Visits env file t m chain f u begun) {chain' : List Position} {f' : Path}
    (hspelled : Respelled env file t m chain₀ f₀ f₀' chain f f')
    (hcovers : Covers env.files chain f chain' f') (begun' : Machine)
    (hm : begun'.unplaced = begun.unplaced) {flow : Flow} {after : Machine}
    (hr : r = (.ok flow, after)) :
    ∃ after', TextEnds env chain' f' u begun' (.ok flow, after') ∧
      after'.unplaced = after.unplaced :=
  match h with
  | .intro lines => by
    obtain ⟨hlines, hclosed⟩ := goOn_checkClosed_eq_ok_iff.1 hr
    obtain ⟨after', hlines', hafter⟩ :=
      lines.elsewhere hblind hfits (.start hvisits) hspelled hcovers 1 begun' hm hlines
    exact ⟨after', textEnds_ok_iff.2 ⟨hlines', fun hnext =>
      unclosed?_congr hafter hm (hclosed hnext)⟩, hafter⟩

theorem LinesEnd.elsewhere (hblind : PlaceBlind env file t m)
    (hfits : PathsFit env file t m chain₀ f₀ f₀') {chain : List Position} {f : Path}
    {line : Nat} {contents : List Text} {mid : Machine} {r : Processed}
    (h : LinesEnd env chain f line contents mid r)
    (hat : AtLines env file t m chain f line contents mid) {chain' : List Position} {f' : Path}
    (hspelled : Respelled env file t m chain₀ f₀ f₀' chain f f')
    (hcovers : Covers env.files chain f chain' f') (line' : Nat) (mid' : Machine)
    (hm : mid'.unplaced = mid.unplaced) {flow : Flow} {after : Machine}
    (hr : r = (.ok flow, after)) :
    ∃ after', LinesEnd env chain' f' line' contents mid' (.ok flow, after') ∧
      after'.unplaced = after.unplaced :=
  match h with
  | .nil => by
    obtain ⟨hflow, rfl⟩ := Prod.mk.inj hr
    obtain rfl := Except.ok.inj hflow
    exact ⟨mid', .nil, hm⟩
  | .next first rest => by
    obtain ⟨next', hfirst', hnext⟩ :=
      first.elsewhere hblind hfits hat ⟨f', line'⟩ hspelled hcovers mid' hm rfl
    obtain ⟨after', hrest', hafter⟩ :=
      rest.elsewhere hblind hfits (hat.next first) hspelled hcovers (line' + 1) next' hnext hr
    exact ⟨after', .next hfirst' hrest', hafter⟩
  | .stop first => by
    obtain ⟨hflow, rfl⟩ := Prod.mk.inj hr
    obtain rfl := Except.ok.inj hflow
    obtain ⟨after', hfirst', hafter⟩ :=
      first.elsewhere hblind hfits hat ⟨f', line'⟩ hspelled hcovers mid' hm rfl
    exact ⟨_, .stop hfirst', hafter⟩
  | .fail _ => nomatch hr

theorem LineEnds.elsewhere (hblind : PlaceBlind env file t m)
    (hfits : PathsFit env file t m chain₀ f₀ f₀') {chain : List Position}
    {here : Position} {content : Text} {contents : List Text} {mid : Machine} {r : Processed}
    (h : LineEnds env chain here content mid r)
    (hat : AtLines env file t m chain here.file here.line (content :: contents) mid)
    {chain' : List Position} (here' : Position)
    (hspelled : Respelled env file t m chain₀ f₀ f₀' chain here.file here'.file)
    (hcovers : Covers env.files chain here.file chain' here'.file) (mid' : Machine)
    (hm : mid'.unplaced = mid.unplaced) {flow : Flow} {after : Machine}
    (hr : r = (.ok flow, after)) :
    ∃ after', LineEnds env chain' here' content mid' (.ok flow, after') ∧
      after'.unplaced = after.unplaced :=
  match h with
  | .alone own => by
    obtain ⟨own', after', hline, hafter⟩ :=
      processLine_unplaced hblind.extension (hblind.placeless hat) hm own hr chain' here'
    exact ⟨after', hline ▸ .alone own', hafter⟩
  | .entering effect text => by
    obtain ⟨argument, e, name, hentering, htarget⟩ := entering_of_lineEffect effect
    have hpath := hfits hspelled hat hentering
    have hentering' := hentering.elsewhere (hblind.placeless hat) hm hcovers hpath
    obtain ⟨after', htext', hafter⟩ := text.elsewhere hblind hfits (hat.enter effect)
      (htarget ▸ .nested hspelled hat hentering)
      (htarget ▸ hcovers.step hentering.read hpath here.line here'.line)
      (mid'.note .detail (here'.string ++ ": including " ++
        (includeTarget here'.file name).string)) hm hr
    exact ⟨after', .entering hentering'.lineEffect htext', hafter⟩

end

end Passes

/-! ## Inlining -/

section Inlining

variable {env : Environment} {file target : Path} {t u content : Text} {m mid after : Machine}
  {line : Nat} {later : List Text} {flow : Flow}

/-- The lines of an included text do on behalf of the file what the include does. -/
theorem LineEnds.inline (hblind : PlaceBlind env file t m)
    (hfits : PathsFit env file t m [⟨file, line⟩] target file)
    (hbeside : env.files.Beside target file)
    (hat : AtLines env file t m [] file line (content :: later) mid)
    (hinclude : lineEffect env [] ⟨file, line⟩ mid content = .ok (.enter target u))
    (h : LineEnds env [] ⟨file, line⟩ content mid (.ok flow, after)) :
    ∃ after', LinesEnd env [] file line (Text.lines u) mid (.ok flow, after') ∧
      after'.unplaced = after.unplaced := by
  generalize hr : (Except.ok flow, after) = r at h
  cases h with
  | alone own => exact absurd hinclude (own target u)
  | entering effect text =>
    subst hr
    obtain ⟨rfl, rfl⟩ := Effect.enter.inj (Except.ok.inj (effect.symm.trans hinclude))
    have hlines := (textEnds_ok_iff.1 text).1
    have hstart : AtLines env file t m [⟨file, line⟩] _ 1 _ _ := .start (hat.enter effect)
    exact hlines.elsewhere hblind hfits hstart .start (.includer hbeside line) line mid rfl rfl

/-- Instead of the lines from an include on, the lines of the included text and those after it. -/
theorem LinesEnd.inline (hblind : PlaceBlind env file t m)
    (hfits : PathsFit env file t m [⟨file, line⟩] target file)
    (hbeside : env.files.Beside target file)
    (hat : AtLines env file t m [] file line (content :: later) mid)
    (hinclude : lineEffect env [] ⟨file, line⟩ mid content = .ok (.enter target u))
    (h : LinesEnd env [] file line (content :: later) mid (.ok flow, after)) :
    ∃ after', LinesEnd env [] file line (Text.lines u ++ later) mid (.ok flow, after') ∧
      after'.unplaced = after.unplaced := by
  generalize hr : (Except.ok flow, after) = r at h
  cases h with
  | next first rest =>
    obtain ⟨next', hlines, hnext⟩ := first.inline hblind hfits hbeside hat hinclude
    -- the lines after the include stand in the same file, only at other numbers
    have hsame : Covers env.files [] file [] file := .refl _ _ _
    obtain ⟨after', hrest, hafter⟩ := rest.elsewhere hblind (pathsFit_refl env file t m [] file)
      (hat.next first) .start hsame (line + (Text.lines u).length) next' hnext hr.symm
    exact ⟨after', hlines.append hrest, hafter⟩
  | stop first =>
    obtain ⟨hflow, rfl⟩ := Prod.mk.inj hr
    obtain rfl := Except.ok.inj hflow
    obtain ⟨after', hlines, hafter⟩ := first.inline hblind hfits hbeside hat hinclude
    exact ⟨after', hlines.append_stop, hafter⟩
  | fail first => nomatch hr

end Inlining

/-- **Including is inlining.** A file comes to an include of a file in the same directory, by a
relative name or where the paths of what that file includes are not too long from the including
file, either, and nothing looks at where it stands. When the pass over the file succeeds, the pass
over it with the lines of the included file instead of the include succeeds as well: with the same
lines in each section, the same variables, the same section for further lines, and the same values
handed to the extension, one after the other. -/
theorem processFile_inlined (env : Environment) (settings : Settings) (file target : Path)
    (t u content output : Text) (before later : List Text) (m mid after : Machine)
    (hsplit : Text.lines t = before ++ content :: later)
    (hreached : LinesEnd env [] file 1 before m (.ok .next, mid))
    (hinclude : lineEffect env [] ⟨file, before.length + 1⟩ mid content = .ok (.enter target u))
    (hdirectory : env.files.directory? target = env.files.directory? file)
    (hfits : (∃ name, (Path.mk name).isAbsolute = false ∧ target = includeTarget file name) ∨
      PathsFit env file t m [⟨file, before.length + 1⟩] target file)
    (hblind : PlaceBlind env file t m)
    (hok : processFile env settings file t m = (.ok output, after)) :
    (∃ t', Text.lines t' = before ++ Text.lines u ++ later) ∧
    ∀ t', Text.lines t' = before ++ Text.lines u ++ later →
      ∃ output' after', processFile env settings file t' m = (.ok output', after') ∧
        SameOutcome after after' := by
  constructor
  · apply Text.exists_lines
    intro line hline
    have hmem : line ∈ Text.lines t ∨ line ∈ Text.lines u := by
      rw [hsplit]
      simp only [List.mem_append, List.mem_cons] at hline ⊢
      tauto
    rcases hmem with hmem | hmem
    · exact Text.lineFeed_of_mem_lines hmem
    · exact Text.lineFeed_of_mem_lines hmem
  · intro t' ht'
    obtain ⟨flow, hends⟩ := textEnds_of_processFile hok
    obtain ⟨hlines, hclosed⟩ := textEnds_ok_iff.1 hends
    rw [hsplit] at hlines
    have hat : AtLines env file t m [] file (before.length + 1) (content :: later) mid :=
      ⟨t, before, m, .start, hsplit, hreached, rfl⟩
    have hrest : LinesEnd env [] file (before.length + 1) (content :: later) mid
        (.ok flow, after) := Nat.add_comm 1 _ ▸ hlines.of_append hreached
    have hread := (entered_of_lineEffect hinclude).2
    have hbeside := FileTree.beside_of_directory?_eq hread hdirectory
    have hpaths : PathsFit env file t m [⟨file, before.length + 1⟩] target file := by
      rcases hfits with ⟨name, hname, htarget⟩ | hpaths
      · exact pathsFit_of_relative hname htarget hread hbeside
      · exact hpaths
    obtain ⟨after', hrest', hafter⟩ := hrest.inline hblind hpaths hbeside hat hinclude
    have hlines' : LinesEnd env [] file 1 (Text.lines t') m (.ok flow, after') := by
      rw [ht', List.append_assoc]
      exact hreached.append (Nat.add_comm _ 1 ▸ hrest')
    have hends' : TextEnds env [] file t' m (.ok flow, after') :=
      textEnds_ok_iff.2 ⟨hlines', fun hnext => unclosed?_congr hafter rfl (hclosed hnext)⟩
    exact ⟨_, after', processFile_of_textEnds hends' settings, sameOutcome_of_unplaced hafter⟩

/-! ## A file in two parts -/

theorem Visits.text {env : Environment} {file : Path} {t : Text} {m : Machine}
    {chain : List Position} {f : Path} {u : Text} {begun : Machine}
    (h : Visits env file t m chain f u begun) :
    u = t ∨ ∃ path, env.files.readText path = .ok u := by
  cases h with
  | start => exact .inl rfl
  | enter _ _ _ effect => exact .inr ⟨_, (entered_of_lineEffect effect).2⟩

/-- Nothing looks at where it stands when no text of the tree does. -/
theorem placeBlind_of_entries {env : Environment} {file : Path} {t : Text} {m : Machine}
    (ht : Placeless t)
    (hentries : ∀ location u, (location, .file (.text u)) ∈ env.files.entries → Placeless u)
    (hextension : ∀ x, env.extension = some x → x.IgnoresPositions) :
    PlaceBlind env file t m where
  texts := by
    intro chain f u begun h
    rcases h.text with rfl | ⟨path, hread⟩
    · exact ht
    · obtain ⟨location, hmem, -⟩ := FileTree.mem_entries_of_readText hread
      exact hentries location u hmem
  extension := hextension

/-- The names of these variables have an underscore. -/
theorem placeless_of_underscore {t : Text} (hascii : t.all Text.isAscii = true)
    (h : '_' ∉ t.map Char.toLower) : Placeless t := by
  have hnone {name : Text} (hname : '_' ∈ name) : ¬ Text.Mentions name t := fun hmentions =>
    h ((hmentions.infix_map hascii).subset hname)
  exact ⟨hnone (by decide), hnone (by decide), hnone (by decide), hnone (by decide)⟩

/-- An include between a definition and its use. -/
def outerText : Text := "@local n=1\n@include \"./part\"\n/*$n$*/".toList

/-- The part changes the variable, hands it to the extension and includes a further file. -/
def partText : Text := "@local n=n+1\n@include \"end\"\n@action n, \"x\"".toList

/-- The file with the lines of the part instead of the include. -/
def wholeText : Text :=
  "@local n=1\n@local n=n+1\n@include \"end\"\n@action n, \"x\"\n/*$n$*/".toList

/-- Three files in the working directory, and an extension that accepts one action. -/
def threeFiles : Environment where
  marker := ['@']
  files :=
    { entries := [(["end".toList], .file (.text "@prefix+\n/*$n$*/\n@prefix-".toList)),
        (["main".toList], .file (.text outerText)), (["part".toList], .file (.text partText))]
      workingDirectory := [] }
  extension := some (.acceptFirst 1)

theorem threeFiles_placeBlind (m : Machine) :
    PlaceBlind threeFiles ⟨"main".toList⟩ outerText m := by
  have houter : Placeless outerText :=
    placeless_of_underscore (by decide +kernel) (by decide +kernel)
  refine placeBlind_of_entries houter ?_ ?_
  · intro location u hmem
    simp only [threeFiles, List.mem_cons, List.not_mem_nil, or_false, Prod.mk.injEq,
      Node.file.injEq, Content.text.injEq] at hmem
    rcases hmem with ⟨-, rfl⟩ | ⟨-, rfl⟩ | ⟨-, rfl⟩
    · exact placeless_of_underscore (by decide +kernel) (by decide +kernel)
    · exact houter
    · exact placeless_of_underscore (by decide +kernel) (by decide +kernel)
  · intro x hx
    obtain rfl := Option.some.inj hx
    intro earlier a
    show decide ((earlier.map Action.unplaced).length < 1) = decide (earlier.length < 1)
    rw [List.length_map]

/-- The file and the file with the lines of its part give the same. -/
theorem threeFiles_inlined :
    (processFile threeFiles {} ⟨"main".toList⟩ outerText ⟨{}, .empty, [], []⟩).1.toOption =
      some "2\n2\n".toList ∧
    ∃ output' after', processFile threeFiles {} ⟨"main".toList⟩ wholeText ⟨{}, .empty, [], []⟩ =
        (.ok output', after') ∧
      SameOutcome (processFile threeFiles {} ⟨"main".toList⟩ outerText ⟨{}, .empty, [], []⟩).2
        after' := by
  have houtput : (processFile threeFiles {} ⟨"main".toList⟩ outerText
      ⟨{}, .empty, [], []⟩).1.toOption = some "2\n2\n".toList := by decide +kernel
  have hnone : (lineEffect threeFiles [] ⟨⟨"main".toList⟩, 1⟩ ⟨{}, .empty, [], []⟩
      "@local n=1".toList).toOption.bind Effect.entered? = none := by decide +kernel
  have hnext : (processLine skipFile threeFiles [] ⟨⟨"main".toList⟩, 1⟩ "@local n=1".toList
      ⟨{}, .empty, [], []⟩).1.toOption = some .next := by decide +kernel
  have hinclude : (lineEffect threeFiles [] ⟨⟨"main".toList⟩, 2⟩ (processLine skipFile threeFiles []
      ⟨⟨"main".toList⟩, 1⟩ "@local n=1".toList ⟨{}, .empty, [], []⟩).2
        "@include \"./part\"".toList).toOption.bind Effect.entered? =
          some (⟨"./part".toList⟩, partText) := by decide +kernel
  have hfirst : LineEnds threeFiles [] ⟨⟨"main".toList⟩, 1⟩ "@local n=1".toList
      ⟨{}, .empty, [], []⟩ _ := .alone fun file t heffect => by
    rw [heffect] at hnone
    nomatch hnone
  rw [eq_next_of_toOption hnext] at hfirst
  refine ⟨houtput, ?_⟩
  exact (processFile_inlined threeFiles {} ⟨"main".toList⟩ ⟨"./part".toList⟩ outerText partText
    "@include \"./part\"".toList "2\n2\n".toList ["@local n=1".toList] ["/*$n$*/".toList]
    ⟨{}, .empty, [], []⟩ _ _ (by decide +kernel) (.next hfirst .nil)
    (eq_enter_of_entered? hinclude) (by decide +kernel)
    (.inl ⟨"./part".toList, by decide, by decide⟩)
    (threeFiles_placeBlind _) (eq_ok_snd_of_toOption houtput)).2 wholeText (by decide +kernel)

/-! ## A long folder -/

/-- The folder `/tmp/`, spelled with so many dots that few names fit after it. -/
def longFolder : Text := '/' :: ((List.replicate 2044 ['.', '/']).flatten ++ "tmp/".toList)

/-- A file with a short name in that folder. -/
def longMain : Path := ⟨longFolder ++ ['m']⟩

/-- The file includes a part by an absolute name. -/
def farText : Text := "@include \"/tmp/part\"".toList

/-- The part includes a further file by a relative name. -/
def nearText : Text := "@include \"end\"".toList

/-- The part and the further file are in the same directory. -/
def longFiles : Environment where
  marker := ['@']
  files :=
    { entries := [(["tmp".toList], .directory),
        (["tmp".toList, "end".toList], .file (.text "last".toList)),
        (["tmp".toList, "part".toList], .file (.text nearText))]
      workingDirectory := [] }
  extension := none

theorem file_of_longFiles {location : Location} {u : Text}
    (h : (location, .file (.text u)) ∈ longFiles.files.entries) :
    location = ["tmp".toList, "end".toList] ∧ u = "last".toList ∨
      location = ["tmp".toList, "part".toList] ∧ u = nearText := by
  simpa [longFiles] using h

theorem longFiles_beside {chain : List Position} {f : Path} {u : Text} {m begun : Machine}
    (h : Visits longFiles longMain farText m chain f u begun) :
    longFiles.files.directory? f = some ["tmp".toList] := by
  cases h with
  | start => decide +kernel
  | enter _ _ _ effect =>
    have hread := (entered_of_lineEffect effect).2
    obtain ⟨location, hmem, hplace⟩ := FileTree.mem_entries_of_readText hread
    have hformed : longFiles.files.WellFormed := by decide +kernel
    rw [hformed.directory?_eq_dropLast hread hplace]
    rcases file_of_longFiles hmem with ⟨rfl, -⟩ | ⟨rfl, -⟩
    · rfl
    · rfl

theorem longFiles_placeBlind (m : Machine) : PlaceBlind longFiles longMain farText m := by
  refine placeBlind_of_entries (placeless_of_underscore (by decide) (by decide)) ?_ nofun
  intro location u hmem
  rcases file_of_longFiles hmem with ⟨-, rfl⟩ | ⟨-, rfl⟩
  · exact placeless_of_underscore (by decide) (by decide)
  · exact placeless_of_underscore (by decide) (by decide)

/-- The name of the part spells its folder with five bytes, so the part can include a file that the
including file cannot: everything is in one directory and nothing looks at where it stands, but the
line of the part fails where the include of the part succeeds. -/
theorem longFolder_not_inlined :
    Text.lines farText = [farText] ∧
    lineEffect longFiles [] ⟨longMain, 1⟩ ⟨{}, .empty, [], []⟩ farText =
      .ok (.enter ⟨"/tmp/part".toList⟩ nearText) ∧
    (∀ chain f u begun, Visits longFiles longMain farText ⟨{}, .empty, [], []⟩ chain f u begun →
      longFiles.files.directory? f = longFiles.files.directory? longMain) ∧
    PlaceBlind longFiles longMain farText ⟨{}, .empty, [], []⟩ ∧
    (processFile longFiles {} longMain farText ⟨{}, .empty, [], []⟩).1.toOption =
      some "last\n".toList ∧
    Text.lines nearText = [nearText] ∧
    (processFile longFiles {} longMain nearText ⟨{}, .empty, [], []⟩).1.toOption = none := by
  have hentered : (lineEffect longFiles [] ⟨longMain, 1⟩ ⟨{}, .empty, [], []⟩
      farText).toOption.bind Effect.entered? = some (⟨"/tmp/part".toList⟩, nearText) := by
    decide +kernel
  have hmain : longFiles.files.directory? longMain = some ["tmp".toList] :=
    longFiles_beside (.start (m := ⟨{}, .empty, [], []⟩))
  refine ⟨by decide, eq_enter_of_entered? hentered, ?_, longFiles_placeBlind _, by decide +kernel,
    by decide, by decide +kernel⟩
  intro chain f u begun hvisits
  rw [longFiles_beside hvisits, hmain]

end SourcePreprocessor
