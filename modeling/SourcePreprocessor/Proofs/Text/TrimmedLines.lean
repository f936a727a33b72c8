import Mathlib.Data.List.Forall2
import SourcePreprocessor.Expr.Function
import SourcePreprocessor.Proofs.Text.Lines
import SourcePreprocessor.Proofs.Text.Trim

/-!
# Trimmed lines

A text is cut into lines at line feeds, but blanks of every kind are trimmed from the lines, and
some of these are line breaks elsewhere: carriage returns, vertical tabs, next lines, separators of
lines and of paragraphs. They are taken away at the ends of a line and stay inside it. The lines
that are left are put together with line feeds, and this text is cut into the same lines again: only
a carriage return makes another line end of the line feed behind it, and no trimmed line ends in
one.

A line that is not empty, is trimmed and holds no line feed is in *normal form* (`IsNormalLine`):

> `lines_join`: lines in normal form are found again between line feeds;
> `trimLines_eq_self_iff`: trimming the lines changes nothing exactly when the text consists of such
> lines with line feeds between them;
> `trimlines_normalizes`: and what `trimlines` gives is a text of this kind, with the trimmed lines
> of its argument.
-/

namespace SourcePreprocessor

namespace Text

variable {t content : Text} {contents : List Text}

/-- The line has a character, starts and ends with none that is blank, and is one line. -/
structure IsNormalLine (content : Text) : Prop where
  nonempty : content ≠ []
  isTrimmed : IsTrimmed content
  lineFeed : '\n' ∉ content

/-- No break is made of the end of a trimmed line and what follows it. -/
theorem IsTrimmed.getLast?_ne (h : IsTrimmed t) : t.getLast? ≠ some '\r' := by
  intro hlast
  obtain ⟨front, rfl⟩ := List.getLast?_eq_some_iff.1 hlast
  have hblank : isBlank '\r' = false := h.last front '\r' rfl
  exact absurd hblank (by decide)

/-- Lines in normal form are found again between line feeds. -/
theorem lines_join (h : ∀ content ∈ contents, IsNormalLine content) :
    lines (join ['\n'] contents) = contents := by
  unfold lines
  induction contents with
  | nil => rfl
  | cons content contents ih =>
    rw [List.forall_mem_cons] at h
    obtain ⟨hcontent, hcontents⟩ := h
    cases contents with
    | nil =>
      rw [join, splitLines_last hcontent.lineFeed hcontent.nonempty]
      rfl
    | cons next contents =>
      rw [join, List.append_assoc, List.singleton_append,
        splitLines_lineFeed hcontent.lineFeed hcontent.isTrimmed.getLast?_ne, List.map_cons,
        ih hcontents]

/-! ## The lines that are left -/

/-- The lines of a text, trimmed, without the empty ones. -/
def trimmedLines (t : Text) : List Text := ((lines t).map trim).filter fun line => !line.isEmpty

theorem trimLines_eq_join (t : Text) : trimLines t = join ['\n'] (trimmedLines t) := rfl

theorem isNormalLine_of_mem_trimmedLines (h : content ∈ trimmedLines t) : IsNormalLine content := by
  obtain ⟨hmem, hne⟩ := List.mem_filter.1 h
  obtain ⟨line, hline, rfl⟩ := List.mem_map.1 hmem
  refine ⟨by simpa using hne, isTrimmed_trim line, fun hfeed => ?_⟩
  exact lineFeed_of_mem_lines hline ((trim_part line).subset hfeed)

/-- There is nothing to trim and nothing to leave out in lines in normal form. -/
theorem trimmedLines_join (h : ∀ content ∈ contents, IsNormalLine content) :
    trimmedLines (join ['\n'] contents) = contents := by
  have htrim : contents.map trim = contents := by
    calc contents.map trim = contents.map id :=
          List.map_congr_left fun content hcontent => (h content hcontent).isTrimmed.trim_eq
      _ = contents := List.map_id contents
  unfold trimmedLines
  rw [lines_join h, htrim, List.filter_eq_self]
  exact fun content hcontent => by simpa using (h content hcontent).nonempty

/-- The texts that trimming their lines does not change. -/
theorem trimLines_eq_self_iff : trimLines t = t ↔
    ∃ contents, (∀ content ∈ contents, IsNormalLine content) ∧ t = join ['\n'] contents := by
  constructor
  · intro h
    exact ⟨trimmedLines t, fun _ => isNormalLine_of_mem_trimmedLines, h.symm⟩
  · rintro ⟨contents, hnormal, rfl⟩
    rw [trimLines_eq_join, trimmedLines_join hnormal]

/-- Trimming the lines leaves nothing to trim in them. -/
theorem trimLines_trimLines (t : Text) : trimLines (trimLines t) = trimLines t :=
  trimLines_eq_self_iff.2 ⟨trimmedLines t, fun _ => isNormalLine_of_mem_trimmedLines, rfl⟩

end Text

open Text

/-- **Trimming lines gives a normal form.** A text is cut into lines in one way, and so is what
`trimlines` gives for it. The lines of the result are the lines of the text in their order, each
without the blanks around it and without those that become empty, whatever breaks of other kinds
stand in them. So none of them is empty or has a blank at an end, and `trimlines` gives the result
for itself. -/
theorem trimlines_normalizes (t : Text) :
    ∃ u ls contents kept, callFunction "trimlines".toList [.str t] = .ok (.str u) ∧
      (∀ cut, CutIntoLines t cut ↔ cut = ls) ∧ (∀ cut, CutIntoLines u cut ↔ cut = kept) ∧
      List.Forall₂ (fun line content => TrimsTo line.content content) ls contents ∧
      kept.map Line.content = contents.filter (fun content => !content.isEmpty) ∧
      (∀ line ∈ kept, line.content ≠ [] ∧ IsTrimmed line.content) ∧
      callFunction "trimlines".toList [.str u] = .ok (.str u) := by
  have hcall (t : Text) : callFunction "trimlines".toList [.str t] = .ok (.str (trimLines t)) := rfl
  have hnormal : ∀ content ∈ trimmedLines t, IsNormalLine content :=
    fun _ => isNormalLine_of_mem_trimmedLines
  have hlines : lines (trimLines t) = trimmedLines t := lines_join hnormal
  refine ⟨trimLines t, splitLines t, (lines t).map trim, splitLines (trimLines t), hcall t,
    fun _ => cutIntoLines_iff, fun _ => cutIntoLines_iff, ?_, hlines, fun line hline => ?_, ?_⟩
  · unfold lines
    rw [List.map_map, List.forall₂_map_right_iff, List.forall₂_same]
    exact fun line _ => trimsTo_iff.2 rfl
  · have hmem : line.content ∈ lines (trimLines t) := List.mem_map_of_mem hline
    rw [hlines] at hmem
    exact ⟨(hnormal _ hmem).nonempty, (hnormal _ hmem).isTrimmed⟩
  · rw [hcall, trimLines_trimLines]

/-- Breaks of many kinds, at the ends of lines and inside a line. -/
def manyBreaks : Text := " a\r\r\n\u0085\nb\u2028 \rc\u000b\n\u2029\r\n\n\rd".toList

/-- Breaks other than line feeds are taken away at the ends of a line and stay inside it. -/
theorem trimlines_normalizes_breaks :
    callFunction "trimlines".toList [.str manyBreaks] = .ok (.str "a\nb\u2028 \rc\nd".toList) ∧
    CutIntoLines "a\nb\u2028 \rc\nd".toList
      [⟨['a'], .lineFeed⟩, ⟨"b\u2028 \rc".toList, .lineFeed⟩, ⟨['d'], .none⟩] ∧
    IsTrimmed "b\u2028 \rc".toList ∧
    callFunction "trimlines".toList [.str "a\nb\u2028 \rc\nd".toList] =
      .ok (.str "a\nb\u2028 \rc\nd".toList) := by
  have hresult : callFunction "trimlines".toList [.str manyBreaks] =
      .ok (.str "a\nb\u2028 \rc\nd".toList) := by decide +kernel
  have hlines : splitLines "a\nb\u2028 \rc\nd".toList =
      [⟨['a'], .lineFeed⟩, ⟨"b\u2028 \rc".toList, .lineFeed⟩, ⟨['d'], .none⟩] := by decide +kernel
  obtain ⟨u, ls, contents, kept, hcall, -, hcut, -, -, hkept, hagain⟩ :=
    trimlines_normalizes manyBreaks
  obtain rfl : "a\nb\u2028 \rc\nd".toList = u :=
    Value.str.inj (Except.ok.inj (hresult.symm.trans hcall))
  have hcutLines := hlines ▸ cutIntoLines_splitLines "a\nb\u2028 \rc\nd".toList
  obtain rfl := (hcut _).1 hcutLines
  exact ⟨hresult, hcutLines, (hkept ⟨"b\u2028 \rc".toList, .lineFeed⟩ (by simp)).2, hagain⟩

end SourcePreprocessor
