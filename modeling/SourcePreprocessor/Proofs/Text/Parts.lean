import SourcePreprocessor.Pass.Insertion

/-!
# Parts of a text

Whatever a pass reads on a line it has cut out of the line: the argument of a directive, the two
sides of an assignment, the body of an insertion. So every such text is a *part* of the line, in one
piece (`<:+:`), and every line is a part of its text.

A text *mentions* a name when one of its parts is the name, in whatever case (`Mentions`). A text
that does not mention a name cannot use the variable of that name, since none of its parts is it.
-/

namespace SourcePreprocessor

namespace Text

theorem trimStart_suffix (t : Text) : trimStart t <:+ t := List.dropWhile_suffix isBlank

theorem trimEnd_isPrefix (t : Text) : trimEnd t <+: t := by
  have h : (t.reverse.dropWhile isBlank).reverse <+: t.reverse.reverse :=
    List.reverse_prefix.2 (List.dropWhile_suffix isBlank)
  rw [List.reverse_reverse] at h
  exact h

theorem trimEnd_part (t : Text) : trimEnd t <:+: t := (trimEnd_isPrefix t).isInfix

theorem trim_part (t : Text) : trim t <:+: t :=
  (trimEnd_part (trimStart t)).trans (trimStart_suffix t).isInfix

theorem suffix_of_stripStart? {mark t rest : Text} (h : stripStart? mark t = some rest) :
    rest <:+ t := ⟨mark, (eq_append_of_stripStart? h).symm⟩

theorem infix_of_cutAt? {p : Char → Bool} {t before after : Text} {c : Char}
    (h : cutAt? p t = some (before, c, after)) : before <:+: t ∧ after <:+: t := by
  obtain ⟨rfl, -, -⟩ := eq_append_of_cutAt? h
  exact ⟨(List.prefix_append before _).isInfix,
    ((List.suffix_cons c after).trans (List.suffix_append before _)).isInfix⟩

theorem infix_of_cut? {mark t before after : Text} (h : cut? mark t = some (before, after)) :
    before <:+: t := by
  obtain rfl := eq_append_of_cut? h
  rw [List.append_assoc]
  exact (List.prefix_append before _).isInfix

theorem infix_of_mem_lines {t content : Text} (h : content ∈ lines t) : content <:+: t := by
  obtain ⟨line, hline, rfl⟩ := List.mem_map.1 h
  obtain ⟨before, after, hsplit⟩ := List.append_of_mem hline
  have ht : joinLines before ++ (line.content ++ (line.terminator.text ++ joinLines after)) = t := by
    rw [← joinLines_splitLines t, hsplit]
    simp [joinLines, Line.text]
  exact ⟨joinLines before, line.terminator.text ++ joinLines after, by rw [← ht, List.append_assoc]⟩

/-- Every line of `current` and the text after it holds no line feed, if `current` does not. -/
theorem lineFeed_of_mem_linesFrom {current t : Text} (hcurrent : '\n' ∉ current) {line : Line}
    (h : line ∈ linesFrom current t) : '\n' ∉ line.content := by
  fun_induction linesFrom current t with
  | case1 => cases h
  | case2 current _ =>
    rw [List.mem_singleton.1 h]
    simpa using hcurrent
  | case3 current rest ih =>
    rcases List.mem_cons.1 h with rfl | h
    · simpa using hcurrent
    · exact ih List.not_mem_nil h
  | case4 current rest ih =>
    rcases List.mem_cons.1 h with rfl | h
    · simpa using hcurrent
    · exact ih List.not_mem_nil h
  | case5 current c rest hfeed _ ih =>
    refine ih ?_ h
    rw [List.mem_cons, not_or]
    exact ⟨fun hc => hfeed hc.symm, hcurrent⟩

theorem lineFeed_of_mem_lines {t content : Text} (h : content ∈ lines t) : '\n' ∉ content := by
  obtain ⟨line, hline, rfl⟩ := List.mem_map.1 h
  exact lineFeed_of_mem_linesFrom List.not_mem_nil hline

/-- The characters of a line are collected, unless they end in the carriage return of a line end. -/
theorem linesFrom_content {content rest : Text} (h : '\n' ∉ content)
    (hreturn : content.getLast? = some '\r' → rest.head? ≠ some '\n') (current : Text) :
    linesFrom current (content ++ rest) = linesFrom (content.reverse ++ current) rest := by
  induction content generalizing current with
  | nil => rfl
  | cons c content ih =>
    rw [List.mem_cons, not_or] at h
    have hnext : linesFrom current (c :: (content ++ rest)) =
        linesFrom (c :: current) (content ++ rest) := by
      refine linesFrom.eq_4 current c _ (fun hc => h.1 hc.symm) ?_
      intro others hc heq
      -- what follows is another character of the line, or what comes after it
      cases content with
      | nil =>
        subst hc
        exact hreturn rfl (congrArg List.head? heq)
      | cons next content =>
        obtain ⟨rfl, -⟩ := List.cons.inj heq
        exact h.2 List.mem_cons_self
    have hlast : content.getLast? = some '\r' → rest.head? ≠ some '\n' := by
      intro hlast
      apply hreturn
      rw [List.getLast?_cons, hlast]
      rfl
    rw [List.cons_append, hnext, ih h.2 hlast, List.reverse_cons, List.append_assoc]
    rfl

theorem linesFrom_append {content : Text} (h : '\n' ∉ content) (current rest : Text) :
    linesFrom current (content ++ '\r' :: '\n' :: rest) =
      ⟨current.reverse ++ content, .returnLineFeed⟩ :: linesFrom [] rest := by
  have hreturn : ('\r' :: '\n' :: rest).head? ≠ some '\n' := by
    rw [List.head?_cons]
    decide
  rw [linesFrom_content h fun _ => hreturn, linesFrom, List.reverse_append, List.reverse_reverse]

/-- There is a text with any given lines that hold no line feed. The carriage returns at its line
ends keep a line apart that ends in one itself. -/
theorem exists_lines {contents : List Text} (h : ∀ content ∈ contents, '\n' ∉ content) :
    ∃ t, lines t = contents := by
  refine ⟨joinLines (contents.map (⟨·, .returnLineFeed⟩)), ?_⟩
  induction contents with
  | nil => rfl
  | cons content contents ih =>
    rw [List.forall_mem_cons] at h
    have hjoin : joinLines ((content :: contents).map (⟨·, .returnLineFeed⟩)) =
        content ++ '\r' :: '\n' :: joinLines (contents.map (⟨·, .returnLineFeed⟩)) := by
      simp [joinLines, Line.text, Terminator.text]
    unfold lines splitLines
    rw [hjoin, linesFrom_append h.1]
    exact congrArg (content :: ·) (ih h.2)

/-- A part of the text is the name, in whatever case. -/
def Mentions (name t : Text) : Prop := ∃ part, part <:+: t ∧ lower part = name

theorem Mentions.mono {name t u : Text} (h : Mentions name u) (hu : u <:+: t) : Mentions name t :=
  let ⟨part, hpart, hname⟩ := h
  ⟨part, hpart.trans hu, hname⟩

/-- In a text of ASCII characters a name that is mentioned occurs once the text is in lower case. -/
theorem Mentions.infix_map {name t : Text} (h : Mentions name t) (ht : t.all isAscii = true) :
    name <:+: t.map Char.toLower := by
  obtain ⟨part, hpart, rfl⟩ := h
  have hascii : ∀ c ∈ part, c.toNat < 128 := fun c hc =>
    of_decide_eq_true (List.all_eq_true.1 ht c (hpart.subset hc))
  rw [lower_eq_map_toLower part hascii]
  exact hpart.map Char.toLower

end Text

/-! ## What is read on a line -/

theorem Directive.suffix_of_find? {t argument : Text} {d : Directive}
    (h : Directive.find? t = some (d, argument)) : argument <:+ t := by
  obtain ⟨before, found, after, -, hfound, -⟩ := List.findSome?_eq_some_iff.1 h
  obtain ⟨rest, hrest, heq⟩ := Option.map_eq_some_iff.1 hfound
  obtain ⟨-, rfl⟩ := Prod.mk.inj heq
  obtain ⟨stripped, hstrip, hfits⟩ := Option.bind_eq_some_iff.1 hrest
  split at hfits
  · obtain rfl := Option.some.inj hfits
    exact Text.suffix_of_stripStart? hstrip
  · cases hfits

/-- The argument of a directive is the end of its line. -/
theorem suffix_of_lineKind {marker content argument : Text} {d : Directive}
    (h : lineKind marker content = .directive d argument) : argument <:+ content := by
  unfold lineKind at h
  split at h
  · cases h
  · next rest hrest =>
    split at h
    · next d' argument' hfind =>
      obtain ⟨-, rfl⟩ := LineKind.directive.inj h
      exact (Directive.suffix_of_find? hfind).trans ((Text.suffix_of_stripStart? hrest).trans
        (Text.trimStart_suffix content))
    · cases h

theorem infix_of_lineKind {marker content argument : Text} {d : Directive}
    (h : lineKind marker content = .directive d argument) : argument <:+: content :=
  (suffix_of_lineKind h).isInfix

theorem eq_trim_of_neededArgument {d : Directive} {argument source : Text}
    (h : d.neededArgument argument = .ok source) : source = Text.trim argument := by
  unfold Directive.neededArgument at h
  split at h
  · cases h
  · exact (Except.ok.inj h).symm

theorem infix_of_insertionAt? {t body : Text} (h : insertionAt? t = some body) : body <:+: t := by
  obtain ⟨rest, hrest, h⟩ := Option.bind_eq_some_iff.1 h
  obtain ⟨⟨before, after⟩, hcut, h⟩ := Option.bind_eq_some_iff.1 h
  obtain rfl := Option.some.inj h
  exact (Text.infix_of_cut? hcut).trans (Text.suffix_of_stripStart? hrest).isInfix

/-- The body of an insertion is a part of its text. -/
theorem infix_of_mem_piecesFrom {skip start column : Nat} {t body : Text}
    (h : Piece.insertion column body ∈ piecesFrom skip start t) : body <:+: t := by
  fun_induction piecesFrom skip start t with
  | case1 => cases h
  | case2 skip start c rest ih => exact (ih h).trans (List.suffix_cons c rest).isInfix
  | case3 start c rest taken htaken ih =>
    rcases List.mem_cons.1 h with h | h
    · obtain ⟨-, rfl⟩ := Piece.insertion.inj h
      exact infix_of_insertionAt? htaken
    · exact (ih h).trans (List.suffix_cons c rest).isInfix
  | case4 start c rest _ ih =>
    rcases List.mem_cons.1 h with h | h
    · cases h
    · exact (ih h).trans (List.suffix_cons c rest).isInfix

end SourcePreprocessor
