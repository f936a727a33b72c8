import SourcePreprocessor.Pass.Global
import SourcePreprocessor.Proofs.Pass.LeftOut

/-!
# The two passes are separate

A text goes through two passes. Both cut it into the same lines and recognise the same directives,
but each keeps blocks of its own and is blind to the directives of the other:

> `scanFile_eq_of_seen`: the global pass sees its own directives and their line numbers, and nothing
> else of a text. Two texts that show it the same give the same conditions or the same failure, and
> leave the same variables, whatever stands on the other lines;
>
> `processFile_eq_of_unseen`: the line pass goes over a directive of the global pass without a look
> at its argument, inside and outside of blocks, so such a directive can be exchanged for any other.
-/

namespace SourcePreprocessor

/-- Whether a line is a directive of the given pass. -/
def LineKind.actsIn (pass : Pass) : LineKind → Bool
  | .directive d _ => d.pass = pass
  | _ => false

/-! ## What the global pass sees -/

/-- What the global pass sees of the line after the first `n`: the whole line, when it is a
directive of this pass, and nothing otherwise. -/
def seenAt? (marker : Text) (contents : List Text) (n : Nat) : Option Text :=
  contents[n]?.filter fun content => (lineKind marker content).actsIn .global

section Scans

variable {marker : Text}

theorem seenAt?_cons_zero (content : Text) (contents : List Text) :
    seenAt? marker (content :: contents) 0 =
      if (lineKind marker content).actsIn .global then some content else none := rfl

/-- A directive of the line pass means nothing to the global pass. -/
theorem scanDirective_of_line {d : Directive} (h : d.pass ≠ .global) (s : Scan) (here : Position)
    (argument : Text) (column : Nat) : scanDirective s here d argument column = .ok s := by
  cases d with
  | globalIf => exact absurd rfl h
  | globalOtherwise => exact absurd rfl h
  | globalEndIf => exact absurd rfl h
  | global => exact absurd rfl h
  | excludeIf => exact absurd rfl h
  | _ => rfl

/-- A line that is no directive of the global pass does nothing in it, even if no directive has its
name. -/
theorem scanLine_of_unseen {content : Text} (h : (lineKind marker content).actsIn .global = false)
    (s : Scan) (here : Position) : scanLine marker s here content = .ok s := by
  unfold scanLine
  match hkind : lineKind marker content with
  | .plain => rfl
  | .unknown rest => rfl
  | .directive d argument =>
    rw [hkind] at h
    exact scanDirective_of_line (of_decide_eq_false h) s here argument _

/-- Lines of which nothing is seen leave the pass where it was. -/
theorem scanLines_of_unseen (file : Path) (contents : List Text) : ∀ (line : Nat) (s : Scan),
    (∀ n, seenAt? marker contents n = none) →
      scanLines marker file line contents s = (.ok (), s) := by
  induction contents with
  | nil => exact fun line s _ => rfl
  | cons content contents ih =>
    intro line s h
    have hfirst : (lineKind marker content).actsIn .global = false := by
      have hzero := h 0
      rw [seenAt?_cons_zero] at hzero
      simpa using hzero
    rw [scanLines, scanLine_of_unseen hfirst]
    exact ih (line + 1) s fun n => h (n + 1)

/-- The pass over lines depends on what is seen of them alone. Neither list need be as long as the
other. -/
theorem scanLines_eq_of_seen (file : Path) (contents : List Text) :
    ∀ (contents' : List Text) (line : Nat) (s : Scan),
      (∀ n, seenAt? marker contents n = seenAt? marker contents' n) →
        scanLines marker file line contents s = scanLines marker file line contents' s := by
  induction contents with
  | nil =>
    intro contents' line s h
    rw [scanLines_of_unseen file contents' line s fun n => (h n).symm]
    rfl
  | cons content contents ih =>
    intro contents' line s h
    cases contents' with
    | nil => exact scanLines_of_unseen file (content :: contents) line s h
    | cons content' contents' =>
      have hrest : ∀ n, seenAt? marker contents n = seenAt? marker contents' n :=
        fun n => h (n + 1)
      have hfirst := h 0
      rw [seenAt?_cons_zero, seenAt?_cons_zero] at hfirst
      rw [scanLines, scanLines]
      by_cases hseen : (lineKind marker content).actsIn .global = true
      · -- the line is seen, so the other one is the same line
        rw [if_pos hseen] at hfirst
        by_cases hseen' : (lineKind marker content').actsIn .global = true
        · rw [if_pos hseen'] at hfirst
          obtain rfl := Option.some.inj hfirst
          cases scanLine marker s ⟨file, line⟩ content with
          | error fault => rfl
          | ok after => exact ih contents' (line + 1) after hrest
        · rw [if_neg hseen'] at hfirst
          nomatch hfirst
      · rw [if_neg hseen] at hfirst
        have hseen' : (lineKind marker content').actsIn .global = false := by
          simpa using hfirst
        rw [scanLine_of_unseen (Bool.eq_false_iff.2 hseen), scanLine_of_unseen hseen']
        exact ih contents' (line + 1) s hrest

theorem scanFile_eq_of_seen (file : Path) {t t' : Text}
    (h : ∀ n, seenAt? marker (Text.lines t) n = seenAt? marker (Text.lines t') n)
    (globals : Table) : scanFile marker file t globals = scanFile marker file t' globals := by
  unfold scanFile
  rw [scanLines_eq_of_seen file (Text.lines t) (Text.lines t') 1 (.start globals) h]

end Scans

/-! ## What the line pass goes over -/

section Lines

variable {enter : List Position → Path → Text → Machine → Processed} {env : Environment}
  {chain : List Position}

/-- The line pass goes over a directive of the global pass, in a branch that is kept as in one that
is left out. -/
theorem lineStep_of_global {content : Text} (h : (lineKind env.marker content).actsIn .global = true)
    (here : Position) (m : Machine) : lineStep enter env chain here content m = (.ok .next, m) := by
  have heffect : lineEffect env chain here m content = .ok .nothing := by
    unfold lineEffect
    match hkind : lineKind env.marker content with
    | .plain =>
      rw [hkind] at h
      nomatch h
    | .unknown rest =>
      rw [hkind] at h
      nomatch h
    | .directive d argument =>
      rw [hkind] at h
      exact if_pos (of_decide_eq_true h)
  unfold lineStep processLine
  rw [heffect]
  rfl

/-- Two lists of lines that differ in directives of the global pass alone do the same. -/
theorem processLines_eq_of_unseen (file : Path) (contents : List Text) :
    ∀ (contents' : List Text) (line : Nat) (m : Machine), contents.length = contents'.length →
      (∀ (n : Nat) (l l' : Text), contents[n]? = some l → contents'[n]? = some l' → l ≠ l' →
        (lineKind env.marker l).actsIn .global = true ∧
          (lineKind env.marker l').actsIn .global = true) →
      processLines enter env chain file line contents m =
        processLines enter env chain file line contents' m := by
  induction contents with
  | nil =>
    intro contents' line m hlength h
    rw [List.eq_nil_of_length_eq_zero hlength.symm]
  | cons l contents ih =>
    intro contents' line m hlength h
    obtain ⟨l', contents', rfl⟩ := List.exists_cons_of_length_eq_add_one hlength.symm
    have hline : lineStep enter env chain ⟨file, line⟩ l m =
        lineStep enter env chain ⟨file, line⟩ l' m := by
      by_cases heq : l = l'
      · rw [heq]
      · obtain ⟨hl, hl'⟩ := h 0 l l' rfl rfl heq
        rw [lineStep_of_global hl, lineStep_of_global hl']
    have hrest : ∀ after, processLines enter env chain file (line + 1) contents after =
        processLines enter env chain file (line + 1) contents' after :=
      fun after => ih contents' (line + 1) after (Nat.succ.inj hlength) fun n => h (n + 1)
    rw [processLines_cons, processLines_cons, hline, funext hrest]

end Lines

theorem processFile_eq_of_unseen (env : Environment) (settings : Settings) (file : Path)
    {t t' : Text} (m : Machine)
    (hends : (Text.splitLines t).map (·.terminator) = (Text.splitLines t').map (·.terminator))
    (h : ∀ (n : Nat) (l l' : Text), (Text.lines t)[n]? = some l → (Text.lines t')[n]? = some l' →
      l ≠ l' → (lineKind env.marker l).actsIn .global = true ∧
        (lineKind env.marker l').actsIn .global = true) :
    processFile env settings file t m = processFile env settings file t' m := by
  have hlength : (Text.lines t).length = (Text.lines t').length := by
    simpa [Text.lines] using congrArg List.length hends
  have htext : processText env (includeBound env.files) [] file t m =
      processText env (includeBound env.files) [] file t' m := by
    rw [includeBound, processText_succ, processText_succ,
      processLines_eq_of_unseen file (Text.lines t) (Text.lines t') 1 m hlength h]
  have hlast : lastTerminator t = lastTerminator t' := by
    rw [lastTerminator_eq, lastTerminator_eq, hends]
  rw [processFile_eq, processFile_eq, htext]
  unfold renderResult renderOutput
  rw [hlast]

/-- **The two passes are separate.** Two texts with the same directives of the global pass on the
same lines go through it alike, from any variables: it gives the same conditions or fails with the
same diagnostic, and it leaves the same variables. The other lines can be anything, and there need
not be as many of them.

Two texts with the same line ends that differ only in directives of the global pass, each in the
place of another one, go through the line pass alike: it gives the same output or fails with the
same diagnostic, and it leaves the same machine, the variables of the run among it. -/
theorem passes_separate :
    (∀ (marker : Text) (file : Path) (t t' : Text) (globals : Table),
      (∀ n, seenAt? marker (Text.lines t) n = seenAt? marker (Text.lines t') n) →
        scanFile marker file t globals = scanFile marker file t' globals) ∧
    (∀ (env : Environment) (settings : Settings) (file : Path) (t t' : Text) (m : Machine),
      (Text.splitLines t).map (·.terminator) = (Text.splitLines t').map (·.terminator) →
      (∀ (n : Nat) (l l' : Text), (Text.lines t)[n]? = some l → (Text.lines t')[n]? = some l' →
        l ≠ l' → (lineKind env.marker l).actsIn .global = true ∧
          (lineKind env.marker l').actsIn .global = true) →
        processFile env settings file t m = processFile env settings file t' m) :=
  ⟨fun _ file _ _ globals h => scanFile_eq_of_seen file h globals,
    fun env settings file _ _ m hends h => processFile_eq_of_unseen env settings file m hends h⟩

/-- Directives of the global pass, among text and an open block of the line pass. -/
def amongText : List Text :=
  ["@global a=1".toList, "text".toList, "@_if a == 1".toList, "@if )".toList,
    "@excludeif b".toList, "@_endif".toList]

/-- The same ones on the same lines, among directives that nobody knows or that lack their block. -/
def amongDirectives : List Text :=
  ["@global a=1".toList, "@nosuch".toList, "@_if a == 1".toList, "@endif".toList,
    "@excludeif b".toList, "@_endif".toList, "more".toList]

/-- Directives of the global pass that could not be read, around a line that is kept. -/
def aroundLine : List Text :=
  ["@_else )".toList, "@if true".toList, "@global".toList, "kept".toList, "@endif".toList]

/-- Other ones in their place. -/
def aroundSameLine : List Text :=
  ["@excludeif true".toList, "@if true".toList, "@_endif".toList, "kept".toList, "@endif".toList]

/-- The passes over these texts: neither notices what is meant for the other. -/
theorem passes_separate_mixed :
    (scanFile ['@'] ⟨['a']⟩ (Text.join ['\n'] amongText) .empty =
        scanFile ['@'] ⟨['a']⟩ (Text.join ['\n'] amongDirectives) .empty ∧
      (scanFile ['@'] ⟨['a']⟩ (Text.join ['\n'] amongText) .empty).2.exclusions.map (·.position) =
        [⟨⟨['a']⟩, 5⟩]) ∧
    passOver aroundLine = passOver aroundSameLine ∧
      (passOver aroundLine).1.toOption = some "kept\n".toList := by
  have hscanned : Text.lines (Text.join ['\n'] amongText) = amongText := by decide +kernel
  have hscanned' : Text.lines (Text.join ['\n'] amongDirectives) = amongDirectives := by
    decide +kernel
  have hpassed : Text.lines (Text.join ['\n'] aroundLine) = aroundLine := by decide +kernel
  have hpassed' : Text.lines (Text.join ['\n'] aroundSameLine) = aroundSameLine := by
    decide +kernel
  refine ⟨⟨passes_separate.1 _ _ _ _ _ ?_, by decide +kernel⟩,
    passes_separate.2 _ _ _ _ _ _ (by decide +kernel) ?_, by decide +kernel⟩
  · intro n
    rw [hscanned, hscanned']
    rcases n with _ | _ | _ | _ | _ | _ | _ | n
    -- past the last of them there is nothing to see
    case succ.succ.succ.succ.succ.succ.succ => rfl
    all_goals decide
  · intro n l l' hl hl' hne
    rw [hpassed] at hl
    rw [hpassed'] at hl'
    rcases n with _ | _ | _ | _ | _ | n
    · obtain rfl := Option.some.inj hl
      obtain rfl := Option.some.inj hl'
      decide
    · obtain rfl := Option.some.inj hl
      exact absurd (Option.some.inj hl') hne
    · obtain rfl := Option.some.inj hl
      obtain rfl := Option.some.inj hl'
      decide
    · obtain rfl := Option.some.inj hl
      exact absurd (Option.some.inj hl') hne
    · obtain rfl := Option.some.inj hl
      exact absurd (Option.some.inj hl') hne
    · nomatch hl

end SourcePreprocessor
