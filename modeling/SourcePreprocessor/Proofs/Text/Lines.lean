import SourcePreprocessor.Proofs.Text.Parts

/-!
# The lines of a text

What the lines of a text are can be said without the way in which they are found (`CutIntoLines`):
put together again they are the text, only the last of them may lack a terminator, and a terminator
takes as much of the line's end as it can.

> `cutIntoLines_iff`: a text has one such cut, and it is the one that is found.
-/

namespace SourcePreprocessor.Text

/-- The text consists of these lines. No line holds a line feed; one that ends in a line feed alone
has no carriage return before it; one without a terminator is the last and has at least one
character. -/
structure CutIntoLines (t : Text) (ls : List Line) : Prop where
  whole : joinLines ls = t
  content : ∀ line ∈ ls, '\n' ∉ line.content
  lineFeed : ∀ line ∈ ls, line.terminator = .lineFeed → line.content.getLast? ≠ some '\r'
  last : ∀ before line later, ls = before ++ line :: later → line.terminator = .none →
    later = [] ∧ line.content ≠ []

/-- In the lines that are found, no line feed has a carriage return left before it. -/
theorem getLast?_of_mem_linesFrom {current t : Text}
    (hcurrent : current.head? = some '\r' → t.head? ≠ some '\n') {line : Line}
    (h : line ∈ linesFrom current t) (hline : line.terminator = .lineFeed) :
    line.content.getLast? ≠ some '\r' := by
  fun_induction linesFrom current t with
  | case1 => exact absurd h List.not_mem_nil
  | case2 current _ =>
    rw [List.mem_singleton.1 h] at hline
    cases hline
  | case3 current rest ih =>
    rcases List.mem_cons.1 h with rfl | h
    · intro hlast
      rw [List.getLast?_reverse] at hlast
      exact hcurrent hlast rfl
    · exact ih (fun hc => by cases hc) h
  | case4 current rest ih =>
    rcases List.mem_cons.1 h with rfl | h
    · cases hline
    · exact ih (fun hc => by cases hc) h
  | case5 current c rest _ hreturn ih =>
    refine ih ?_ h
    intro hc hrest
    obtain ⟨others, rfl⟩ := List.head?_eq_some_iff.1 hrest
    exact hreturn others (Option.some.inj hc) rfl

/-- In the lines that are found, only the last may lack a terminator, and then it is not empty. -/
theorem last_of_linesFrom {current t : Text} {before later : List Line} {line : Line}
    (h : linesFrom current t = before ++ line :: later) (hline : line.terminator = .none) :
    later = [] ∧ line.content ≠ [] := by
  fun_induction linesFrom current t generalizing before with
  | case1 => exact absurd h.symm (List.append_ne_nil_of_right_ne_nil _ (List.cons_ne_nil _ _))
  | case2 current hne =>
    obtain ⟨rfl, hlater⟩ | ⟨others, -, hothers⟩ := List.cons_eq_append_iff.1 h
    · obtain ⟨rfl, rfl⟩ := List.cons.inj hlater
      exact ⟨rfl, fun hempty => hne (List.isEmpty_iff.2 (List.reverse_eq_nil_iff.1 hempty))⟩
    · exact absurd hothers.symm (List.append_ne_nil_of_right_ne_nil _ (List.cons_ne_nil _ _))
  | case3 current rest ih =>
    obtain ⟨rfl, hlater⟩ | ⟨others, -, hothers⟩ := List.cons_eq_append_iff.1 h
    · obtain ⟨rfl, -⟩ := List.cons.inj hlater
      cases hline
    · exact ih hothers
  | case4 current rest ih =>
    obtain ⟨rfl, hlater⟩ | ⟨others, -, hothers⟩ := List.cons_eq_append_iff.1 h
    · obtain ⟨rfl, -⟩ := List.cons.inj hlater
      cases hline
    · exact ih hothers
  | case5 current c rest _ _ ih => exact ih h

theorem cutIntoLines_splitLines (t : Text) : CutIntoLines t (splitLines t) where
  whole := joinLines_splitLines t
  content _ h := lineFeed_of_mem_linesFrom List.not_mem_nil h
  lineFeed _ h := @getLast?_of_mem_linesFrom [] t nofun _ h
  last _ _ _ h := last_of_linesFrom h

theorem CutIntoLines.tail {t : Text} {line : Line} {ls : List Line}
    (h : CutIntoLines t (line :: ls)) : CutIntoLines (joinLines ls) ls where
  whole := rfl
  content other hother := h.content other (List.mem_cons_of_mem line hother)
  lineFeed other hother := h.lineFeed other (List.mem_cons_of_mem line hother)
  last before other later hsplit := h.last (line :: before) other later (congrArg (line :: ·) hsplit)

/-- A line is found in front of its line feed. -/
theorem splitLines_lineFeed {content : Text} (hfeed : '\n' ∉ content)
    (hreturn : content.getLast? ≠ some '\r') (rest : Text) :
    splitLines (content ++ '\n' :: rest) = ⟨content, .lineFeed⟩ :: splitLines rest := by
  unfold splitLines
  rw [linesFrom_content hfeed fun hlast => absurd hlast hreturn, List.append_nil, linesFrom,
    List.reverse_reverse]

/-- A line that nothing follows is found if it has a character. -/
theorem splitLines_last {content : Text} (hfeed : '\n' ∉ content) (hne : content ≠ []) :
    splitLines content = [⟨content, .none⟩] := by
  have hend : ([] : Text).head? ≠ some '\n' := nofun
  have hempty : ¬ content.reverse.isEmpty = true := by simpa using hne
  have hfrom := linesFrom_content hfeed (fun _ => hend) []
  rw [List.append_nil, List.append_nil, linesFrom, if_neg hempty, List.reverse_reverse] at hfrom
  exact hfrom

/-- Lines that are put together are found again. -/
theorem CutIntoLines.eq_splitLines {t : Text} {ls : List Line} (h : CutIntoLines t ls) :
    ls = splitLines t := by
  obtain rfl := h.whole
  induction ls with
  | nil => rfl
  | cons line ls ih =>
    have hls : splitLines (joinLines ls) = ls := (ih h.tail).symm
    obtain ⟨content, terminator⟩ := line
    have hcontent : '\n' ∉ content := h.content _ List.mem_cons_self
    show _ = splitLines (content ++ terminator.text ++ joinLines ls)
    rw [List.append_assoc]
    cases terminator with
    | none =>
      obtain ⟨rfl, hne⟩ : ls = [] ∧ content ≠ [] := h.last [] _ ls rfl rfl
      show _ = splitLines (content ++ [])
      rw [List.append_nil, splitLines_last hcontent hne]
    | lineFeed =>
      have hreturn : content.getLast? ≠ some '\r' := h.lineFeed _ List.mem_cons_self rfl
      show _ = splitLines (content ++ '\n' :: joinLines ls)
      rw [splitLines_lineFeed hcontent hreturn, hls]
    | returnLineFeed =>
      show _ = linesFrom [] (content ++ '\r' :: '\n' :: joinLines ls)
      rw [linesFrom_append hcontent]
      exact congrArg _ hls.symm

/-- A text is cut into lines in one way. -/
theorem cutIntoLines_iff {t : Text} {ls : List Line} : CutIntoLines t ls ↔ ls = splitLines t :=
  ⟨CutIntoLines.eq_splitLines, fun h => h ▸ cutIntoLines_splitLines t⟩

/-- Carriage returns elsewhere than before a line feed belong to their line. -/
example : splitLines "a\r\r\n\rb\n\nc\r".toList =
    [⟨['a', '\r'], .returnLineFeed⟩, ⟨['\r', 'b'], .lineFeed⟩, ⟨[], .lineFeed⟩,
      ⟨['c', '\r'], .none⟩] := by decide

end SourcePreprocessor.Text
