import SourcePreprocessor.Proofs.Pass.Substitution
import SourcePreprocessor.Proofs.Pass.Visiting
import SourcePreprocessor.Proofs.Text.Parts

/-!
# How the output ends

The output can be asked to end as the text does. Its lines are then joined with the line end of the
settings, and what ends the last line of the text goes after the last of them.

No line that is written holds a line feed, unless a value brought it in (`lineFeed_of_emit`). So the
output ends as the text does, but for two ways in which the end is not what was put there
(`EndLost`): an empty last line leaves the line end before it at the end of a text that should have
none, and a carriage return before a line feed becomes part of it.

> `processFile_lastTerminator`: the output ends as the text does just when neither is the case.
-/

namespace SourcePreprocessor

/-! ## How a text ends -/

namespace Text

/-- What a text ends in, by its last characters. -/
def ending (t : Text) : Terminator :=
  if ['\r', '\n'] <:+ t then .returnLineFeed
  else if t.getLast? = some '\n' then .lineFeed else .none

theorem ending_cons {c : Char} {rest : Text} (hfeed : c = '\n' → rest ≠ [])
    (hreturn : c = '\r' → rest ≠ ['\n']) : ending (c :: rest) = ending rest := by
  have hsuffix : ['\r', '\n'] <:+ c :: rest ↔ ['\r', '\n'] <:+ rest := by
    rw [List.suffix_cons_iff, or_iff_right]
    intro h
    obtain ⟨hc, hrest⟩ := List.cons.inj h
    exact hreturn hc.symm hrest.symm
  have hlast : (c :: rest).getLast? = some '\n' ↔ rest.getLast? = some '\n' := by
    cases rest with
    | nil => exact ⟨fun h => absurd rfl (hfeed (Option.some.inj h)), nofun⟩
    | cons d rest => rw [List.getLast?_cons_cons]
  unfold ending
  simp only [hsuffix, hlast]

theorem ending_lineFeed_cons {rest : Text} (h : rest ≠ []) :
    ending ('\n' :: rest) = ending rest :=
  ending_cons (fun _ => h) fun hc => absurd hc (by decide)

theorem linesFrom_ne_nil (current : Text) {t : Text} (h : t ≠ []) : linesFrom current t ≠ [] := by
  fun_induction linesFrom current t with
  | case1 => exact absurd rfl h
  | case2 => exact List.cons_ne_nil _ _
  | case3 => exact List.cons_ne_nil _ _
  | case4 => exact List.cons_ne_nil _ _
  | case5 current c rest _ _ ih =>
    by_cases hrest : rest = []
    · rw [hrest]
      exact List.cons_ne_nil _ _
    · exact ih hrest

/-- The last of several lines is that of the others. -/
theorem terminator_getLast?_cons (line : Line) {ls : List Line} (h : ls ≠ []) :
    ((line :: ls).getLast?.map Line.terminator).getD .none =
      (ls.getLast?.map Line.terminator).getD .none := by
  cases ls with
  | nil => exact absurd rfl h
  | cons other ls => rw [List.getLast?_cons_cons]

/-- The terminator of the last line is what the text ends in. -/
theorem terminator_linesFrom (current t : Text) :
    ((linesFrom current t).getLast?.map Line.terminator).getD .none = ending t := by
  fun_induction linesFrom current t with
  | case1 => rfl
  | case2 => rfl
  | case3 current rest ih =>
    by_cases hrest : rest = []
    · subst hrest
      rfl
    · rw [terminator_getLast?_cons _ (linesFrom_ne_nil [] hrest), ih, ending_lineFeed_cons hrest]
  | case4 current rest ih =>
    by_cases hrest : rest = []
    · subst hrest
      rfl
    · have hne : '\n' :: rest ≠ ['\n'] := fun h => hrest (List.cons.inj h).2
      rw [terminator_getLast?_cons _ (linesFrom_ne_nil [] hrest), ih,
        ending_cons (fun _ => List.cons_ne_nil _ _) fun _ => hne, ending_lineFeed_cons hrest]
  | case5 current c rest hfeed hreturn ih =>
    rw [ih, ending_cons (fun h => absurd h hfeed) fun hc hrest => hreturn [] hc hrest]

end Text

theorem lastTerminator_eq_ending (t : Text) : lastTerminator t = t.ending := by
  rw [← Text.terminator_linesFrom []]
  unfold lastTerminator Text.splitLines
  cases (Text.linesFrom [] t).getLast? <;> rfl

theorem lastTerminator_eq_none_iff {t : Text} :
    lastTerminator t = .none ↔ t.getLast? ≠ some '\n' := by
  rw [lastTerminator_eq_ending]
  unfold Text.ending
  split
  next h =>
    obtain ⟨before, rfl⟩ := h
    rw [List.getLast?_append_of_ne_nil _ (List.cons_ne_nil _ _)]
    exact ⟨nofun, fun hne => absurd rfl hne⟩
  next =>
    split
    next hlast => exact ⟨nofun, fun hne => absurd hlast hne⟩
    next hlast => exact ⟨fun _ => hlast, fun _ => rfl⟩

theorem lastTerminator_returnLineFeed (t : Text) :
    lastTerminator (t ++ ['\r', '\n']) = .returnLineFeed := by
  rw [lastTerminator_eq_ending, Text.ending, if_pos (List.suffix_append ..)]

theorem lastTerminator_lineFeed_iff {t : Text} :
    lastTerminator (t ++ ['\n']) = .lineFeed ↔ t.getLast? ≠ some '\r' := by
  have hsuffix : ['\r', '\n'] <:+ t ++ ['\n'] ↔ t.getLast? = some '\r' := by
    rw [← List.singleton_suffix_iff_getLast?_eq_some]
    exact @List.suffix_append_self_iff _ ['\r'] t ['\n']
  rw [lastTerminator_eq_ending, Text.ending, List.getLast?_concat, if_pos rfl]
  split
  next h => exact ⟨nofun, fun hne => absurd (hsuffix.1 h) hne⟩
  next h => exact ⟨fun _ hreturn => h (hsuffix.2 hreturn), fun _ => rfl⟩

/-! ## Lines that are joined -/

namespace Text

variable {separator : Text} {ts : List Text}

theorem mem_join {c : Char} (h : c ∈ join separator ts) : c ∈ separator ∨ ∃ t ∈ ts, c ∈ t := by
  fun_induction join separator ts with
  | case1 => nomatch h
  | case2 t => exact .inr ⟨t, List.mem_singleton_self t, h⟩
  | case3 t u ts ih =>
    rcases List.mem_append.1 h with h | h
    · rcases List.mem_append.1 h with h | h
      · exact .inr ⟨t, List.mem_cons_self, h⟩
      · exact .inl h
    · exact (ih h).imp_right fun ⟨v, hv, hc⟩ => ⟨v, List.mem_cons_of_mem _ hv, hc⟩

theorem join_concat (hne : ts ≠ []) (t : Text) :
    join separator (ts ++ [t]) = join separator ts ++ separator ++ t := by
  fun_induction join separator ts with
  | case1 => exact absurd rfl hne
  | case2 u => rfl
  | case3 u v ts ih =>
    show u ++ separator ++ join separator (v :: ts ++ [t]) = _
    rw [ih (List.cons_ne_nil _ _)]
    simp only [List.append_assoc]

/-- Joined lines that hold no line feed end in one just when the last of several is empty and what
goes between them ends in one. -/
theorem getLast?_join_iff (h : ∀ t ∈ ts, '\n' ∉ t) :
    (join separator ts).getLast? = some '\n' ↔
      1 < ts.length ∧ ts.getLast? = some [] ∧ separator.getLast? = some '\n' := by
  rcases List.eq_nil_or_concat' ts with rfl | ⟨before, last, rfl⟩
  · exact ⟨nofun, nofun⟩
  have hlast : last.getLast? ≠ some '\n' := fun hfeed =>
    h last (List.mem_append_right _ (List.mem_singleton_self _)) (List.mem_of_getLast? hfeed)
  rw [List.getLast?_concat, List.length_append, List.length_singleton]
  by_cases hbefore : before = []
  · subst hbefore
    exact ⟨fun hfeed => absurd hfeed hlast, fun hlong => absurd hlong.1 (Nat.lt_irrefl 1)⟩
  rw [join_concat hbefore]
  by_cases hempty : last = []
  · subst hempty
    have hlong : 1 < before.length + 1 := Nat.succ_lt_succ (List.length_pos_of_ne_nil hbefore)
    rw [List.append_nil]
    by_cases hseparator : separator = []
    · -- with nothing between the lines, it is one of them that would end in a line feed
      subst hseparator
      refine ⟨fun hfeed => ?_, nofun⟩
      rw [List.append_nil] at hfeed
      rcases mem_join (List.mem_of_getLast? hfeed) with hmem | ⟨t, ht, hmem⟩
      · nomatch hmem
      · exact absurd hmem (h t (List.mem_append_left _ ht))
    · rw [List.getLast?_append_of_ne_nil _ hseparator]
      exact ⟨fun hfeed => ⟨hlong, rfl, hfeed⟩, fun hends => hends.2.2⟩
  · rw [List.getLast?_append_of_ne_nil _ hempty]
    exact ⟨fun hfeed => absurd hfeed hlast, fun hends => absurd (Option.some.inj hends.2.1) hempty⟩

end Text

/-! ## The lines that are written -/

/-- The pieces that a line of text is written from: it can stay as it is but for a mark, and what
stands before a mark stays. -/
def linePieces (content : Text) : List Piece :=
  match Text.stripStart? rawMark (Text.trimStart content) with
  | some rest => (content.takeWhile Text.isBlank ++ rest).map .plain
  | none =>
    match Text.stripStart? uncommentMark (Text.trimStart content) with
    | some rest =>
      (content.takeWhile Text.isBlank).map .plain ++ pieces (columnOf content rest) rest
    | none => pieces 1 content

theorem renderLine_eq (scope : Scope) (content : Text) :
    renderLine scope content = renderPieces scope (linePieces content) := by
  unfold renderLine linePieces
  dsimp only
  cases Text.stripStart? rawMark (Text.trimStart content) with
  | some rest => exact (renderPieces_map_plain scope _).symm
  | none =>
    dsimp only
    cases Text.stripStart? uncommentMark (Text.trimStart content) with
    | some rest => exact (renderPieces_plain scope _ _).symm
    | none => rfl

theorem mem_of_plain_piecesFrom {c : Char} {skip column : Nat} {t : Text}
    (h : .plain c ∈ piecesFrom skip column t) : c ∈ t := by
  fun_induction piecesFrom skip column t with
  | case1 => exact absurd h List.not_mem_nil
  | case2 skip column d rest ih => exact List.mem_cons_of_mem _ (ih h)
  | case3 column d rest body _ ih =>
    rcases List.mem_cons.1 h with h | h
    · cases h
    · exact List.mem_cons_of_mem _ (ih h)
  | case4 column d rest _ ih =>
    rcases List.mem_cons.1 h with h | h
    · obtain rfl := Piece.plain.inj h
      exact List.mem_cons_self
    · exact List.mem_cons_of_mem _ (ih h)

/-- What stays of a line stands in it. -/
theorem mem_of_plain_linePieces {c : Char} {content : Text} (h : .plain c ∈ linePieces content) :
    c ∈ content := by
  have hindent : ∀ d ∈ content.takeWhile Text.isBlank, d ∈ content := fun d hd =>
    (List.takeWhile_prefix _).subset hd
  have hrest {mark rest : Text} (hmark : Text.stripStart? mark (Text.trimStart content) = some rest) :
      ∀ d ∈ rest, d ∈ content := fun d hd =>
    (Text.trimStart_suffix content).subset ((Text.suffix_of_stripStart? hmark).subset hd)
  unfold linePieces at h
  split at h
  next rest hmark =>
    obtain ⟨d, hd, heq⟩ := List.mem_map.1 h
    obtain rfl := Piece.plain.inj heq
    exact (List.mem_append.1 hd).elim (hindent d) (hrest hmark d)
  next =>
    split at h
    next rest hmark =>
      rcases List.mem_append.1 h with h | h
      · obtain ⟨d, hd, heq⟩ := List.mem_map.1 h
        obtain rfl := Piece.plain.inj heq
        exact hindent d hd
      · exact hrest hmark c (mem_of_plain_piecesFrom h)
    next => exact mem_of_plain_piecesFrom h

/-- What is written comes from a piece. -/
theorem exists_piece {scope : Scope} {ps : List Piece} {line : Text}
    (h : renderPieces scope ps = .ok line) {c : Char} (hc : c ∈ line) :
    ∃ piece ∈ ps, ∃ shown, piece.render scope = .ok shown ∧ c ∈ shown := by
  induction ps generalizing line with
  | nil =>
    obtain rfl := Except.ok.inj h
    nomatch hc
  | cons piece ps ih =>
    obtain ⟨first, hfirst, h⟩ := bind_eq_ok_iff.1 h
    obtain ⟨others, hothers, h⟩ := bind_eq_ok_iff.1 h
    obtain rfl := Except.ok.inj h
    rcases List.mem_append.1 hc with hc | hc
    · exact ⟨piece, List.mem_cons_self, first, hfirst, hc⟩
    · obtain ⟨other, hother, hshown⟩ := ih hothers hc
      exact ⟨other, List.mem_cons_of_mem _ hother, hshown⟩

section Passes

variable {env : Environment} {file : Path} {t : Text} {m : Machine}

/-- The pass inserts the value in a line that it writes. -/
def Inserts (env : Environment) (file : Path) (t : Text) (m : Machine) (v : Value) : Prop :=
  ∃ chain f line content later mid column body,
    AtLines env file t m chain f line (content :: later) mid ∧
    lineKind env.marker content = .plain ∧ mid.state.blocks.isActive = true ∧
    Piece.insertion column body ∈ linePieces content ∧
    lineValue (mid.scope ⟨f, line⟩) (Text.trim body) = .ok v

/-- A line feed in a line that is written was in a value. -/
theorem lineFeed_of_emit (hvalues : ∀ v, Inserts env file t m v → '\n' ∉ v.display)
    {chain : List Position} {f : Path} {line : Nat} {content written : Text} {later : List Text}
    {mid : Machine} (hat : AtLines env file t m chain f line (content :: later) mid)
    (heffect : lineEffect env chain ⟨f, line⟩ mid content = .ok (.emit written)) :
    '\n' ∉ written := by
  intro hfeed
  obtain ⟨hkind, hactive, hrender⟩ := lineEffect_emit heffect
  rw [renderLine_eq] at hrender
  obtain ⟨piece, hpiece, shown, hshown, hmem⟩ := exists_piece hrender hfeed
  cases piece with
  | plain c =>
    obtain rfl := Except.ok.inj hshown
    obtain rfl := List.mem_singleton.1 hmem
    obtain ⟨u, begun, n, -, hget, -⟩ := hat.visited
    exact Text.lineFeed_of_mem_lines (List.mem_of_getElem? hget) (mem_of_plain_linePieces hpiece)
  | insertion column body =>
    rw [render_insertion] at hshown
    obtain ⟨v, hv, rfl⟩ := map_eq_ok_iff.1 hshown
    exact hvalues v ⟨chain, f, line, content, later, mid, column, body, hat, hkind, hactive, hpiece,
      mapError_eq_ok_iff.1 hv⟩ hmem

/-- A line that is written is the only one that is added. -/
theorem FileState.mem_lines_emit {s : FileState} {line other : Text} :
    other ∈ (s.emit line).lines ↔ other = line ∨ other ∈ s.lines := by
  unfold FileState.emit FileState.lines
  cases s.target <;> simp only [Array.toList_push, List.mem_append, List.mem_singleton] <;> tauto

/-- A line of the file adds what it asks to write, and nothing else. -/
theorem mem_lines_processLine {chain : List Position} {here : Position} {content written : Text}
    {mid : Machine}
    (h : written ∈ (processLine skipFile env chain here content mid).2.state.lines) :
    written ∈ mid.state.lines ∨ lineEffect env chain here mid content = .ok (.emit written) := by
  unfold processLine at h
  split at h
  next => exact .inl h
  next => exact .inl h
  next => exact .inl h
  next =>
    dsimp only at h
    split at h <;> exact .inl h
  next e _ _ _ heffect =>
    cases e with
    | emit line =>
      rcases FileState.mem_lines_emit.1 h with rfl | h
      · exact .inr heffect
      · exact .inl h
    | _ => exact .inl h

theorem keptByLines_lineFeed (hvalues : ∀ v, Inserts env file t m v → '\n' ∉ v.display) :
    KeptByLines env file t m fun mid => ∀ written ∈ mid.state.lines, '\n' ∉ written where
  line hat hmid written hwritten :=
    (mem_lines_processLine hwritten).elim (hmid written) (lineFeed_of_emit hvalues hat)
  note hmid := hmid

end Passes

/-! ## The end of the output -/

/-- What is put at the end of the output is not what it ends in then. -/
inductive EndLost (settings : Settings) (t : Text) (lines : List Text) : Prop
  /-- The text ends without a terminator. After the line end before the empty last line comes
  nothing. -/
  | exposed (bare : lastTerminator t = .none) (several : 1 < lines.length)
    (empty : lines.getLast? = some []) (feed : settings.lineEnd.getLast? = some '\n')
  /-- The text ends in a line feed, and that comes after a carriage return. -/
  | absorbed (feed : lastTerminator t = .lineFeed)
    (returns : (Text.join settings.lineEnd lines).getLast? = some '\r')

/-- A carriage return and a line feed stay what they are. -/
theorem not_endLost {settings : Settings} {t : Text} {lines : List Text}
    (h : lastTerminator t = .returnLineFeed) : ¬ EndLost settings t lines := by
  rintro (⟨bare, -⟩ | ⟨feed, -⟩)
  · nomatch h.symm.trans bare
  · nomatch h.symm.trans feed

/-- Lines without line feeds are written with the end that the text has, unless it gets lost. -/
theorem lastTerminator_renderOutput_iff {settings : Settings} {t : Text} {lines : List Text}
    (hkeep : settings.keepLastEnd = true) (hne : lines ≠ []) (hfeed : ∀ line ∈ lines, '\n' ∉ line) :
    lastTerminator (renderOutput settings t lines) = lastTerminator t ↔
      ¬ EndLost settings t lines := by
  have houtput : renderOutput settings t lines =
      Text.join settings.lineEnd lines ++ (lastTerminator t).text := by
    unfold renderOutput
    rw [if_pos hkeep, if_neg (by simpa using hne)]
  rw [houtput]
  cases hend : lastTerminator t with
  | none =>
    show lastTerminator (_ ++ []) = _ ↔ _
    rw [List.append_nil, lastTerminator_eq_none_iff]
    refine not_congr ((Text.getLast?_join_iff hfeed).trans ⟨?_, ?_⟩)
    · exact fun ⟨several, empty, feed⟩ => .exposed hend several empty feed
    · rintro (⟨-, several, empty, feed⟩ | ⟨feed, -⟩)
      · exact ⟨several, empty, feed⟩
      · nomatch hend.symm.trans feed
  | lineFeed =>
    refine lastTerminator_lineFeed_iff.trans (not_congr ⟨.absorbed hend, ?_⟩)
    rintro (⟨bare, -⟩ | ⟨-, returns⟩)
    · nomatch hend.symm.trans bare
    · exact returns
  | returnLineFeed =>
    exact ⟨fun _ => not_endLost hend, fun _ => lastTerminator_returnLineFeed _⟩

/-- **The output ends as the text does, unless the end gets lost.** Let the settings ask for it, and
let no value that is inserted hold a line feed. Then an output with anything in it has the end of the
text, whichever lines were written and in whatever section, but for two cases: the text ends without
a terminator, and the last of several lines is empty; or it ends in a line feed, and the joined lines
end in a carriage return. -/
theorem processFile_lastTerminator {env : Environment} {settings : Settings} {file : Path}
    {t output : Text} {m after : Machine} (hkeep : settings.keepLastEnd = true)
    (hfresh : m.state.lines = []) (hvalues : ∀ v, Inserts env file t m v → '\n' ∉ v.display)
    (h : processFile env settings file t m = (.ok output, after)) (hne : output ≠ []) :
    lastTerminator output = lastTerminator t ↔ ¬ EndLost settings t after.state.lines := by
  have hfeed : ∀ written ∈ after.state.lines, '\n' ∉ written := by
    have hkept := processFile_keeps (keptByLines_lineFeed hvalues) (by rw [hfresh]; nofun) settings
    rwa [h] at hkept
  obtain ⟨flow, hends⟩ := textEnds_of_processFile h
  have hout := h.symm.trans (processFile_of_textEnds hends settings)
  obtain rfl : output = renderOutput settings t after.state.lines :=
    Except.ok.inj (Prod.mk.inj hout).1
  refine lastTerminator_renderOutput_iff hkeep (fun hnone => hne ?_) hfeed
  unfold renderOutput
  rw [hnone, if_pos hkeep]
  rfl

/-! ## An end that is kept, and one that is not -/

/-- The second line is written first, and the last line with anything in it is a directive. -/
def movedText : Text := "x /*$1+1$*/\n@prefix+\ny\n@prefix-\r\n".toList

/-- The only value that is inserted is the number two. -/
theorem movedText_values {v : Value}
    (h : Inserts noFiles ⟨"main".toList⟩ movedText freshMachine v) : '\n' ∉ v.display := by
  obtain ⟨chain, f, line, content, later, mid, column, body, hat, -, -, hpiece, hvalue⟩ := h
  obtain ⟨u, begun, n, hvisits, hget, -⟩ := hat.visited
  have hmem : content ∈ Text.lines movedText := by
    cases hvisits with
    | start => exact List.mem_of_getElem? hget
    | enter _ _ _ effect =>
      obtain ⟨location, hentry, -⟩ :=
        FileTree.mem_entries_of_readText (entered_of_lineEffect effect).2
      nomatch hentry
  have hbodies : ∀ content ∈ Text.lines movedText, ∀ piece ∈ linePieces content,
      piece.expressionColumn? = none ∨ piece = .insertion 6 "1+1".toList := by decide +kernel
  obtain rfl : body = "1+1".toList := by
    obtain hnone | heq := hbodies content hmem _ hpiece
    · exact absurd hnone (Option.some_ne_none _)
    · exact (Piece.insertion.inj heq).2
  have htwo : lineValue (mid.scope ⟨f, line⟩) (Text.trim "1+1".toList) = .ok (.int 2) := rfl
  obtain rfl := Except.ok.inj (htwo.symm.trans hvalue)
  decide

/-- The carriage return of the last directive comes after the second line. -/
theorem movedText_ends :
    (processFile noFiles { keepLastEnd := true } ⟨"main".toList⟩ movedText
      freshMachine).1.toOption = some "y\nx 2\r\n".toList ∧
    lastTerminator "y\nx 2\r\n".toList = lastTerminator movedText := by
  have houtput : (processFile noFiles { keepLastEnd := true } ⟨"main".toList⟩ movedText
      freshMachine).1.toOption = some "y\nx 2\r\n".toList := by decide +kernel
  have hend : lastTerminator movedText = .returnLineFeed := by decide +kernel
  exact ⟨houtput, (processFile_lastTerminator rfl rfl (fun _ => movedText_values)
    (eq_ok_snd_of_toOption houtput) (List.cons_ne_nil _ _)).2 (not_endLost hend)⟩

/-- **The output does not always end as the text does.** The last line of this text is an exit, and
has no terminator. The empty line before it is the last one that is written, and after the line end
that goes before it comes nothing. -/
theorem emptyLine_ends :
    ¬ openMark <:+: "a\n\n@exit".toList ∧
    lastTerminator "a\n\n@exit".toList = .none ∧
    (processFile noFiles { keepLastEnd := true } ⟨"main".toList⟩ "a\n\n@exit".toList
      freshMachine).1.toOption = some "a\n".toList ∧
    lastTerminator "a\n".toList = .lineFeed := by decide +kernel

/-- A carriage return before the line feed at the end becomes part of it. -/
example :
    (processFile noFiles { keepLastEnd := true } ⟨"main".toList⟩ "a\r\r\n@exit\n".toList
      freshMachine).1.toOption = some "a\r\n".toList := by decide +kernel

end SourcePreprocessor
