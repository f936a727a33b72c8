import SourcePreprocessor.Proofs.Pass.Relocation
import SourcePreprocessor.Proofs.Run.Phases

/-!
# Conditions that leave a file out

The global pass collects the conditions under which a file is left out, and they are evaluated when
it is over. There are two ways to go through them. A run evaluates all of them, one after the other
and also when one of them was found to hold (`excludedFiles`); where only one text is asked about,
the evaluation stops at the first that holds (`anyHolds`).

Both stop at the first condition that fails, and they see the same conditions before it. So they
agree, except where the first condition that fails comes after one that holds (`HoldsBeforeFailure`):
the second way does not reach it.
-/

namespace SourcePreprocessor

/-! ## Where the conditions come from -/

/-- The condition was read from the text of the file. -/
structure Exclusion.StandsIn (file : Path) (t : Text) (e : Exclusion) : Prop where
  file : e.position.file = file
  source : e.condition.source <:+: t
  parsed : parse e.condition.source = .ok e.condition

/-- A directive of the global pass adds a condition, or leaves the conditions alone. -/
theorem scanDirective_exclusions {s after : Scan} {here : Position} {d : Directive} {argument : Text}
    {column : Nat} (h : scanDirective s here d argument column = .ok after) :
    after.exclusions = s.exclusions ∨ ∃ e, parse (Text.trim argument) = .ok e ∧
      after.exclusions = s.exclusions ++ [⟨e, here⟩] := by
  unfold scanDirective at h
  split at h
  · simp only [atColumn, mapError_eq_ok_iff, bind_eq_ok_iff] at h
    obtain ⟨blocks, -, h⟩ := h
    exact .inl (Except.ok.inj h ▸ rfl)
  · simp only [atColumn, mapError_eq_ok_iff, bind_eq_ok_iff] at h
    obtain ⟨_, -, blocks, -, h⟩ := h
    exact .inl (Except.ok.inj h ▸ rfl)
  · simp only [atColumn, mapError_eq_ok_iff, bind_eq_ok_iff] at h
    obtain ⟨_, -, blocks, -, h⟩ := h
    exact .inl (Except.ok.inj h ▸ rfl)
  · split at h
    · obtain ⟨⟨name, source⟩, hassign, -⟩ := bind_eq_ok_iff.1 h
      have hassignment := mapError_eq_ok_iff.1 (mapError_eq_ok_iff.1 hassign)
      rw [define_of_assignment hassignment] at h
      obtain ⟨v, -, rfl⟩ := map_eq_ok_iff.1 h
      exact .inl rfl
    · exact .inl (Except.ok.inj h ▸ rfl)
  · split at h
    · simp only [atColumn, mapError_eq_ok_iff, bind_eq_ok_iff] at h
      obtain ⟨e, he, h⟩ := h
      exact .inr ⟨e, parse_of_expressionArgument he, Except.ok.inj h ▸ rfl⟩
    · exact .inl (Except.ok.inj h ▸ rfl)
  · exact .inl (Except.ok.inj h ▸ rfl)

section StandsIn

variable {file : Path} {t : Text}

/-- A line of the text adds nothing but what stands in the text. -/
theorem scanLine_standsIn {marker content : Text} {line : Nat} {s after : Scan}
    (h : scanLine marker s ⟨file, line⟩ content = .ok after) (hcontent : content <:+: t)
    (hs : ∀ e ∈ s.exclusions, e.StandsIn file t) : ∀ e ∈ after.exclusions, e.StandsIn file t := by
  unfold scanLine at h
  split at h
  · next d argument hkind =>
    rcases scanDirective_exclusions h with hsame | ⟨e, hparse, hadded⟩
    · rw [hsame]
      exact hs
    · rw [hadded, List.forall_mem_append, List.forall_mem_singleton]
      have hsource := source_of_parse hparse
      refine ⟨hs, rfl, ?_, ?_⟩
      · rw [hsource]
        exact (Text.trim_part argument).trans ((infix_of_lineKind hkind).trans hcontent)
      · rw [hsource]
        exact hparse
  · exact Except.ok.inj h ▸ hs

theorem scanLines_standsIn (marker : Text) (contents : List Text) : ∀ (line : Nat) (s : Scan),
    (∀ content ∈ contents, content <:+: t) → (∀ e ∈ s.exclusions, e.StandsIn file t) →
    ∀ e ∈ (scanLines marker file line contents s).2.exclusions, e.StandsIn file t := by
  induction contents with
  | nil => exact fun _ s _ hs => hs
  | cons content contents ih =>
    intro line s hcontents hs
    rw [List.forall_mem_cons] at hcontents
    rw [scanLines]
    cases hline : scanLine marker s ⟨file, line⟩ content with
    | error fault => exact hs
    | ok after => exact ih (line + 1) after hcontents.2 (scanLine_standsIn hline hcontents.1 hs)

theorem scanFile_standsIn (marker : Text) (file : Path) (t : Text) (globals : Table) :
    ∀ e ∈ (scanFile marker file t globals).2.exclusions, e.StandsIn file t := by
  have hlines : ∀ e ∈ (scanLines marker file 1 (Text.lines t) (.start globals)).2.exclusions,
      e.StandsIn file t :=
    scanLines_standsIn marker (Text.lines t) 1 (.start globals)
      (fun _ => Text.infix_of_mem_lines) nofun
  unfold scanFile
  match hscan : scanLines marker file 1 (Text.lines t) (.start globals) with
  | (.error d, s) =>
    rw [hscan] at hlines
    exact hlines
  | (.ok (), s) =>
    rw [hscan] at hlines
    dsimp only
    split <;> exact hlines

/-- A condition that stands in a text holds or fails at both paths that the text cannot tell
apart. -/
theorem Exclusion.holds_movedTo {file' : Path} {e : Exclusion} (he : e.StandsIn file t)
    (h : SeenAlike file file' t) (globals : Table) :
    (e.movedTo file').holds globals = (e.holds globals).mapError (·.movedTo file') := by
  have hagree : Context.AgreeOn e.condition.source
      (Scope.mk file' e.position.line none globals).get?
      (Scope.mk e.position.file e.position.line none globals).get? := by
    rw [he.file]
    exact (h.agreeOn e.position.line none globals).mono he.source
  unfold Exclusion.holds
  dsimp only [Exclusion.movedTo]
  rw [condition_agreeOn he.parsed hagree]
  cases e.condition.condition (Scope.mk e.position.file e.position.line none globals).get? <;> rfl

end StandsIn

/-! ## The two ways through the conditions -/

/-- None of the conditions fails. -/
def Settled (globals : Table) (es : List Exclusion) : Prop :=
  ∀ e ∈ es, ∃ holds, e.holds globals = .ok holds

/-- The first condition that fails comes after one that holds. -/
def HoldsBeforeFailure (globals : Table) (es : List Exclusion) : Prop :=
  ∃ before e after d, es = before ++ e :: after ∧ Settled globals before ∧
    (∃ b ∈ before, b.holds globals = .ok true) ∧ e.holds globals = .error d

section Conditions

variable {globals : Table}

theorem Settled.movedTo {file file' : Path} {t : Text} {es : List Exclusion}
    (h : Settled globals es) (hes : ∀ e ∈ es, e.StandsIn file t) (hseen : SeenAlike file file' t) :
    Settled globals (es.map (·.movedTo file')) := by
  intro moved hmoved
  obtain ⟨e, he, rfl⟩ := List.mem_map.1 hmoved
  obtain ⟨holds, hholds⟩ := h e he
  refine ⟨holds, ?_⟩
  rw [Exclusion.holds_movedTo (hes e he) hseen, hholds]
  rfl

/-- None of the conditions fails, or there is a first one that does. -/
theorem settled_or_fails (globals : Table) (es : List Exclusion) :
    Settled globals es ∨ ∃ before e after d, es = before ++ e :: after ∧
      Settled globals before ∧ e.holds globals = .error d := by
  induction es with
  | nil => exact .inl nofun
  | cons e es ih =>
    cases he : e.holds globals with
    | error d => exact .inr ⟨[], e, es, d, rfl, nofun, he⟩
    | ok holds =>
      rcases ih with hes | ⟨before, failing, after, d, rfl, hbefore, hfailing⟩
      · exact .inl (List.forall_mem_cons.2 ⟨⟨holds, he⟩, hes⟩)
      · exact .inr ⟨e :: before, failing, after, d, rfl,
          List.forall_mem_cons.2 ⟨⟨holds, he⟩, hbefore⟩, hfailing⟩

/-- Conditions that do not hold are passed over. -/
theorem anyHolds_append {before : List Exclusion} (hbefore : Settled globals before)
    (hnone : ∀ e ∈ before, e.holds globals ≠ .ok true) (rest : List Exclusion) :
    anyHolds globals (before ++ rest) = anyHolds globals rest := by
  induction before with
  | nil => rfl
  | cons e before ih =>
    obtain ⟨⟨holds, he⟩, hbefore⟩ := List.forall_mem_cons.1 hbefore
    rw [List.forall_mem_cons] at hnone
    cases holds with
    | true => exact absurd he hnone.1
    | false =>
      rw [List.cons_append, anyHolds, he]
      exact ih hbefore hnone.2

/-- A condition that holds ends the search, unless one before it fails. -/
theorem anyHolds_eq_true {before : List Exclusion} (hbefore : Settled globals before)
    (hsome : ∃ e ∈ before, e.holds globals = .ok true) (rest : List Exclusion) :
    anyHolds globals (before ++ rest) = .ok true := by
  induction before with
  | nil =>
    obtain ⟨e, he, -⟩ := hsome
    nomatch he
  | cons e before ih =>
    obtain ⟨⟨holds, he⟩, hbefore⟩ := List.forall_mem_cons.1 hbefore
    rw [List.cons_append, anyHolds, he]
    cases holds with
    | true => rfl
    | false =>
      obtain ⟨found, hfound, hholds⟩ := hsome
      rcases List.mem_cons.1 hfound with rfl | hfound
      · rw [he] at hholds
        nomatch hholds
      · exact ih hbefore ⟨found, hfound, hholds⟩

open Preprocessor in
/-- A run goes through conditions that do not fail and on to the next, and only its log changes. -/
theorem excludedFiles_append {before : List Exclusion} :
    ∀ (w : World) (excluded : List Path), Settled w.globals before →
      ∃ left log, ∀ rest, (excludedFiles (before ++ rest) excluded).exec w =
        (excludedFiles rest left).exec { w with log } := by
  induction before with
  | nil => exact fun w excluded _ => ⟨excluded, w.log, fun _ => rfl⟩
  | cons e before ih =>
    intro w excluded hbefore
    obtain ⟨⟨holds, he⟩, hbefore⟩ := List.forall_mem_cons.1 hbefore
    cases holds with
    | false =>
      obtain ⟨left, log, hrest⟩ := ih w excluded hbefore
      refine ⟨left, log, fun rest => ?_⟩
      rw [List.cons_append, excludedFiles, Run.exec_bind_of_ok (Run.exec_get w), he]
      exact hrest rest
    | true =>
      let file := e.position.file
      let noted : World := { w with log := w.log ++ [⟨.information,
        "Excluding " ++ file.string ++ " (excludeif at line " ++ toString e.position.line ++ ")"⟩] }
      obtain ⟨left, log, hrest⟩ := ih noted
        (if excluded.any file.same then excluded else excluded ++ [file]) hbefore
      refine ⟨left, log, fun rest => ?_⟩
      rw [List.cons_append, excludedFiles, Run.exec_bind_of_ok (Run.exec_get w), he]
      exact hrest rest

open Preprocessor in
theorem excludedFiles_of_settled {es : List Exclusion} {w : World} (h : Settled w.globals es) :
    ∃ left log, (excludedFiles es []).exec w = (.ok left, { w with log }) ∧
      ∀ path : Path, left.any path.same = true ↔ ∃ e ∈ es,
        path.same e.position.file = true ∧ e.holds w.globals = .ok true := by
  obtain ⟨left, log, hrest⟩ := excludedFiles_append w [] h
  have hexec : (excludedFiles es []).exec w = (.ok left, { w with log }) := by
    have hall := hrest []
    rw [List.append_nil] at hall
    exact hall
  refine ⟨left, log, hexec, fun path => ?_⟩
  rw [excludedFiles_eq_ok hexec path]
  simp

open Preprocessor in
theorem excludedFiles_of_failure {before after : List Exclusion} {e : Exclusion} {d : Diagnostic}
    {w : World} (hbefore : Settled w.globals before) (he : e.holds w.globals = .error d) :
    ∃ log, (excludedFiles (before ++ e :: after) []).exec w = (.error d, { w with log }) := by
  obtain ⟨left, log, hrest⟩ := excludedFiles_append w [] hbefore
  refine ⟨log, ?_⟩
  rw [hrest, excludedFiles, Run.exec_bind_of_ok (Run.exec_get _), he]
  rfl

theorem HoldsBeforeFailure.anyHolds {es : List Exclusion} (h : HoldsBeforeFailure globals es) :
    SourcePreprocessor.anyHolds globals es = .ok true := by
  obtain ⟨before, e, after, d, rfl, hbefore, hsome, -⟩ := h
  exact anyHolds_eq_true hbefore hsome (e :: after)

/-- Where no condition fails, none fails after one that holds. -/
theorem Settled.not_holdsBeforeFailure {es : List Exclusion} (h : Settled globals es) :
    ¬ HoldsBeforeFailure globals es := by
  rintro ⟨before, e, after, d, rfl, -, -, he⟩
  obtain ⟨holds, hholds⟩ := h e (List.mem_append_right before List.mem_cons_self)
  rw [he] at hholds
  nomatch hholds

end Conditions

end SourcePreprocessor
