import SourcePreprocessor.Proofs.Pass.Structured
import SourcePreprocessor.Proofs.Pass.LastEnd
import SourcePreprocessor.Proofs.Text.Lines

/-!
# Plain text passes through

A line of plain text is no directive line, does not start with a mark that is taken away, and has no
complete insertion in it (`IsPlain`). Such a line is written as it is. A text of such lines comes
out line by line, with nothing lost, added or moved; only the line ends can change.

> `processLines_plain`: plain lines go to the section that receives lines, one after the other;
> `processFile_plain`: what the pass over a plain text gives, for every line end of the settings.
-/

namespace SourcePreprocessor

/-- The line is no directive line, does not start like a line that is written without its mark, and
no insertion in it is complete. -/
structure IsPlain (marker content : Text) : Prop where
  directive : ¬ marker <+: Text.trimStart content
  comment : ¬ uncommentMark <+: Text.trimStart content
  insertion : NoInsertion content

instance (marker content : Text) : Decidable (IsPlain marker content) :=
  decidable_of_iff (¬ marker <+: Text.trimStart content ∧
      ¬ uncommentMark <+: Text.trimStart content ∧ NoInsertion content)
    ⟨fun ⟨hdirective, hcomment, hinsertion⟩ => ⟨hdirective, hcomment, hinsertion⟩,
      fun h => ⟨h.directive, h.comment, h.insertion⟩⟩

theorem Text.stripStart?_eq_none {mark t : Text} (h : ¬ mark <+: t) : stripStart? mark t = none := by
  rw [Option.eq_none_iff_forall_not_mem]
  exact fun rest hrest => h ⟨rest, (eq_append_of_stripStart? hrest).symm⟩

namespace IsPlain

variable {marker content : Text} (h : IsPlain marker content)

include h

theorem lineKind : lineKind marker content = .plain := by
  unfold SourcePreprocessor.lineKind
  rw [Text.stripStart?_eq_none h.directive]

theorem renderLine (scope : Scope) : renderLine scope content = .ok content := by
  -- the longer mark starts with the shorter one
  have hraw : ¬ rawMark <+: Text.trimStart content := fun hraw =>
    h.comment (List.IsPrefix.trans (by decide : uncommentMark <+: rawMark) hraw)
  unfold SourcePreprocessor.renderLine
  dsimp only
  rw [Text.stripStart?_eq_none hraw, Text.stripStart?_eq_none h.comment]
  exact insertValues_noInsertion h.insertion scope 1

end IsPlain

/-! ## Plain lines -/

/-- The machine with more lines in the main section. -/
def Machine.written (m : Machine) (contents : List Text) : Machine :=
  { m with state := { m.state with main := m.state.main ++ contents.toArray } }

theorem Machine.written_nil (m : Machine) : m.written [] = m := by
  simp [Machine.written]

theorem Machine.written_cons (m : Machine) (content : Text) (contents : List Text) :
    (m.written [content]).written contents = m.written (content :: contents) := by
  simp [Machine.written]

section Lines

variable {enter : List Position → Path → Text → Machine → Processed} {env : Environment}
  {chain : List Position} {m : Machine}

/-- A plain line is written as it is. -/
theorem lineStep_plain {here : Position} {content : Text} (h : IsPlain env.marker content)
    (hactive : m.state.blocks.isActive = true) (htarget : m.state.target = .main) :
    lineStep enter env chain here content m = (.ok .next, m.written [content]) := by
  have heffect : lineEffect env chain here m content = .ok (.emit content) := by
    unfold lineEffect
    rw [h.lineKind]
    dsimp only
    rw [if_pos hactive, h.renderLine]
    rfl
  have hemit : m.state.emit content = { m.state with main := m.state.main ++ #[content] } := by
    simp [FileState.emit, htarget]
  unfold lineStep processLine
  rw [heffect]
  exact congrArg (fun state => (Except.ok Flow.next, { m with state })) hemit

/-- Plain lines are written as they are, in their order. -/
theorem processLines_plain (file : Path) {contents : List Text}
    (h : ∀ content ∈ contents, IsPlain env.marker content) (line : Nat)
    (hactive : m.state.blocks.isActive = true) (htarget : m.state.target = .main) :
    processLines enter env chain file line contents m = (.ok .next, m.written contents) := by
  induction contents generalizing line m with
  | nil => rw [processLines, Machine.written_nil]
  | cons content contents ih =>
    rw [List.forall_mem_cons] at h
    rw [processLines_cons, lineStep_plain h.1 hactive htarget]
    show processLines enter env chain file (line + 1) contents (m.written [content]) = _
    rw [ih (m := m.written [content]) h.2 (line + 1) hactive htarget, Machine.written_cons]

end Lines

/-! ## Plain texts -/

/-- Joined lines, the last one apart. -/
theorem Text.join_concat_eq_flatMap (separator : Text) (ts : List Text) (t : Text) :
    join separator (ts ++ [t]) = ts.flatMap (· ++ separator) ++ t := by
  induction ts with
  | nil => rfl
  | cons u ts ih =>
    obtain ⟨v, vs, hvs⟩ := List.exists_cons_of_ne_nil
      (List.append_ne_nil_of_right_ne_nil ts (List.cons_ne_nil t []))
    rw [List.cons_append, hvs, join, ← hvs, ih, List.flatMap_cons]
    simp only [List.append_assoc]

/-- The end of the last line is what comes after it. -/
theorem lastTerminator_of_splitLines {t : Text} {before : List Text.Line} {last : Text.Line}
    (h : Text.splitLines t = before ++ [last]) : lastTerminator t = last.terminator := by
  unfold lastTerminator
  rw [h, List.getLast?_concat]

theorem processText_plain {env : Environment} {file : Path} {t : Text}
    (hplain : ∀ content ∈ Text.lines t, IsPlain env.marker content) (bound : Nat)
    (chain : List Position) {m : Machine} (hactive : m.state.blocks.isActive = true)
    (htarget : m.state.target = .main) :
    processText env (bound + 1) chain file t m = (.ok .next, m.written (Text.lines t)) := by
  rw [processText_succ, processLines_plain file hplain 1 hactive htarget]
  exact checkClosed_of_le (Nat.le_refl _)

/-- **Plain text passes through.** The text is cut into lines in one way. The pass over it succeeds
and changes nothing of what it was given. Every line comes out with its content and the line end of
the settings, in the same order; where the output ends as the text does, the last line keeps its own
end, and the text stays as it is when its other line ends are those of the settings already. -/
theorem processFile_plain (env : Environment) (settings : Settings) (file : Path) (t : Text)
    (globals : Table) (actions : List Action) (log : List LogRecord)
    (hplain : ∀ content ∈ Text.lines t, IsPlain env.marker content) :
    ∃ ls output, (∀ ls', Text.CutIntoLines t ls' ↔ ls' = ls) ∧
      processFile env settings file t ⟨{}, globals, actions, log⟩ =
        (.ok output, ⟨{ main := (ls.map Text.Line.content).toArray }, globals, actions, log⟩) ∧
      (settings.keepLastEnd = false →
        output = ls.flatMap fun line => line.content ++ settings.lineEnd) ∧
      (settings.keepLastEnd = true → ∀ before last, ls = before ++ [last] →
        output = before.flatMap (fun line => line.content ++ settings.lineEnd) ++ last.text ∧
        ((∀ line ∈ before, line.terminator.text = settings.lineEnd) → output = t)) ∧
      (t = [] → output = []) := by
  refine ⟨Text.splitLines t, renderOutput settings t (Text.lines t), fun _ => Text.cutIntoLines_iff,
    ?_, ?_, ?_, ?_⟩
  · rw [processFile_eq]
    unfold includeBound
    rw [processText_plain hplain _ _ rfl rfl]
    unfold renderResult
    simp [Machine.written, FileState.lines, Text.lines]
  · intro hkeep
    unfold renderOutput Text.lines
    rw [hkeep, if_neg Bool.false_ne_true, List.flatMap_map]
  · intro hkeep before last hsplit
    have hlines : Text.lines t = before.map Text.Line.content ++ [last.content] := by
      rw [Text.lines, hsplit, List.map_append]
      rfl
    have houtput : renderOutput settings t (Text.lines t) =
        before.flatMap (fun line => line.content ++ settings.lineEnd) ++ last.text := by
      unfold renderOutput
      rw [if_pos hkeep, hlines, Text.join_concat_eq_flatMap, lastTerminator_of_splitLines hsplit,
        List.flatMap_map, if_neg (by simp), List.append_assoc]
      rfl
    refine ⟨houtput, fun hends => ?_⟩
    calc renderOutput settings t (Text.lines t)
        = before.flatMap (fun line => line.content ++ settings.lineEnd) ++ last.text := houtput
      _ = before.flatMap Text.Line.text ++ last.text := by
        congr 1
        refine List.flatMap_congr fun line hline => ?_
        rw [← hends line hline]
        rfl
      _ = Text.joinLines (Text.splitLines t) := by
        rw [hsplit, Text.joinLines, List.flatMap_append, List.flatMap_singleton]
      _ = t := Text.joinLines_splitLines t
  · rintro rfl
    unfold renderOutput
    cases settings.keepLastEnd <;> rfl

/-- Two kinds of line ends, carriage returns elsewhere, empty lines, an insertion that is not closed
and no end of the last line. -/
def mixedText : Text := "a\r\n\n\rb\r\r\n /*$ 1 $*\n\n$*/ c".toList

/-- The text comes out with other line ends, after every line or only between the lines. -/
theorem mixedText_passes :
    (∀ content ∈ Text.lines mixedText, IsPlain noFiles.marker content) ∧
    (processFile noFiles { lineEnd := ['|'] } ⟨"main".toList⟩ mixedText freshMachine).1.toOption =
      some "a||\rb\r| /*$ 1 $*||$*/ c|".toList ∧
    (processFile noFiles { lineEnd := ['|'], keepLastEnd := true } ⟨"main".toList⟩ mixedText
      freshMachine).1.toOption = some "a||\rb\r| /*$ 1 $*||$*/ c".toList := by
  have hplain : ∀ content ∈ Text.lines mixedText, IsPlain noFiles.marker content := by
    decide +kernel
  have hsplit : Text.splitLines mixedText = (Text.splitLines mixedText).dropLast ++
    [⟨"$*/ c".toList, .none⟩] := by decide +kernel
  refine ⟨hplain, ?_, ?_⟩
  · obtain ⟨ls, output, hcut, hresult, hends, -, -⟩ :=
      processFile_plain noFiles { lineEnd := ['|'] } ⟨"main".toList⟩ mixedText .empty [] [] hplain
    obtain rfl := (hcut _).1 (Text.cutIntoLines_splitLines mixedText)
    rw [show freshMachine = ⟨{}, .empty, [], []⟩ from rfl, hresult, hends rfl]
    decide +kernel
  · obtain ⟨ls, output, hcut, hresult, -, hlast, -⟩ :=
      processFile_plain noFiles { lineEnd := ['|'], keepLastEnd := true } ⟨"main".toList⟩ mixedText
        .empty [] [] hplain
    obtain rfl := (hcut _).1 (Text.cutIntoLines_splitLines mixedText)
    rw [show freshMachine = ⟨{}, .empty, [], []⟩ from rfl, hresult, (hlast rfl _ _ hsplit).1]
    decide +kernel

end SourcePreprocessor
