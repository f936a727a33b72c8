import SourcePreprocessor.Proofs.Run.Exclusions

/-!
# Conditions are evaluated last

The global pass goes through all files before any condition that leaves a file out is evaluated. It
does two things with its directives: a definition takes effect at once, and a condition is put
aside. Which directives these are is decided by the branches that the pass is in when it comes to
them (`reachedFrom`). Here the whole pass is read off these two lists:

> `globalPass_eq_ok`: the variables at the end are the definitions carried out one after the other,
> and the conditions are those that were reached, each with its place.

So a condition sees the last word on every variable, and it makes no difference where the
definitions stand that it uses. The run leaves a file out exactly when one of the conditions that
were reached in it holds then, and it stops with the files untouched when a condition has no answer
(`run_leaves_out`).
-/

namespace SourcePreprocessor

/-! ## Directives that the pass reaches -/

/-- A directive that the global pass comes to in an active branch. -/
structure Reached where
  position : Position
  argument : Text
  deriving DecidableEq, Repr

namespace Reached

/-- What an expression of the directive sees: its place, the given variables of the run, and none of
its file. -/
def scope (globals : Table) (r : Reached) : Scope :=
  ⟨r.position.file, r.position.line, none, globals⟩

/-- The variables after the directive, read as a definition. Its expression sees those before it. -/
def define (globals : Table) (r : Reached) : Except Cause Table := do
  let (name, source) ← (Directive.global.assignmentArgument r.argument).mapError .structural
  let v ← lineValue (r.scope globals) (Text.trimEnd source)
  return globals.set name v

/-- The directive, read as a condition that leaves its file out. -/
def condition (r : Reached) : Except Cause Exclusion :=
  (Directive.excludeIf.expressionArgument r.argument).map fun e => ⟨e, r.position⟩

/-- Whether the condition holds, for the given variables. -/
def holds (globals : Table) (r : Reached) : Except Cause Bool := do
  let e ← Directive.excludeIf.expressionArgument r.argument
  (e.condition (r.scope globals).get?).mapError .expression

/-- A condition that was put aside holds exactly when the directive does that it was read from. -/
theorem holds_iff {r : Reached} {e : Exclusion} (h : r.condition = .ok e) (globals : Table)
    (b : Bool) : e.holds globals = .ok b ↔ r.holds globals = .ok b := by
  obtain ⟨condition, hcondition, rfl⟩ := map_eq_ok_iff.1 h
  unfold Exclusion.holds holds
  rw [hcondition, ok_bind, mapError_eq_ok_iff, mapError_eq_ok_iff]
  rfl

/-- Two conditions with the same text hold alike when they see the same value for every name in
it. -/
theorem holds_congr {r r' : Reached} {globals globals' : Table} (h : r'.argument = r.argument)
    (hagree : Context.AgreeOn r.argument (r'.scope globals').get? (r.scope globals).get?) :
    r'.holds globals' = r.holds globals := by
  unfold holds
  rw [h]
  refine bind_congr_of_ok fun e he => ?_
  rw [condition_agreeOn (parse_of_expressionArgument he) (hagree.mono (Text.trim_part r.argument))]

end Reached

/-- The line as a directive of the given kind that the pass comes to in an active branch. -/
def reachedAt? (marker : Text) (d : Directive) (s : Scan) (here : Position) (content : Text) :
    Option Reached :=
  match lineKind marker content with
  | .directive found argument =>
    if found = d && s.blocks.isActive then some ⟨here, argument⟩ else none
  | _ => none

/-- The directives of the given kind that the pass over lines comes to in an active branch. -/
def reachedFrom (marker : Text) (d : Directive) (file : Path) :
    Nat → List Text → Scan → List Reached
  | _, [], _ => []
  | line, content :: contents, s =>
    (reachedAt? marker d s ⟨file, line⟩ content).toList ++
      match scanLine marker s ⟨file, line⟩ content with
      | .ok after => reachedFrom marker d file (line + 1) contents after
      | .error _ => []

section Lines

variable {marker : Text} {file : Path}

/-- What a directive of the global pass does with the variables and the conditions: one is for
definitions, one for conditions, and in an inactive branch neither does anything. -/
theorem scanDirective_eq_ok {s after : Scan} {here : Position} {d : Directive} {argument : Text}
    {column : Nat} (h : scanDirective s here d argument column = .ok after) :
    (if d = .global && s.blocks.isActive then Reached.define s.globals ⟨here, argument⟩
      else .ok s.globals) = .ok after.globals ∧
    (if d = .excludeIf && s.blocks.isActive then
        ∃ e, Reached.condition ⟨here, argument⟩ = .ok e ∧ after.exclusions = s.exclusions ++ [e]
      else after.exclusions = s.exclusions) := by
  unfold scanDirective at h
  split at h
  · simp only [atColumn, mapError_eq_ok_iff, bind_eq_ok_iff] at h
    obtain ⟨blocks, -, h⟩ := h
    exact Except.ok.inj h ▸ ⟨rfl, rfl⟩
  · simp only [atColumn, mapError_eq_ok_iff, bind_eq_ok_iff] at h
    obtain ⟨_, -, blocks, -, h⟩ := h
    exact Except.ok.inj h ▸ ⟨rfl, rfl⟩
  · simp only [atColumn, mapError_eq_ok_iff, bind_eq_ok_iff] at h
    obtain ⟨_, -, blocks, -, h⟩ := h
    exact Except.ok.inj h ▸ ⟨rfl, rfl⟩
  · cases hactive : s.blocks.isActive with
    | false =>
      rw [hactive] at h
      exact Except.ok.inj h ▸ ⟨rfl, rfl⟩
    | true =>
      rw [hactive, if_pos rfl] at h
      obtain ⟨⟨name, source⟩, hassign, -⟩ := bind_eq_ok_iff.1 h
      have hassignment := mapError_eq_ok_iff.1 (mapError_eq_ok_iff.1 hassign)
      rw [define_of_assignment hassignment] at h
      obtain ⟨v, hv, rfl⟩ := map_eq_ok_iff.1 h
      refine ⟨?_, rfl⟩
      have hvalue : lineValue (Reached.scope s.globals ⟨here, argument⟩) (Text.trimEnd source) =
          .ok v := mapError_eq_ok_iff.1 hv
      show Reached.define s.globals ⟨here, argument⟩ = _
      unfold Reached.define
      rw [hassignment, mapError_ok, ok_bind]
      dsimp only
      rw [hvalue]
      rfl
  · cases hactive : s.blocks.isActive with
    | false =>
      rw [hactive] at h
      exact Except.ok.inj h ▸ ⟨rfl, rfl⟩
    | true =>
      rw [hactive, if_pos rfl] at h
      simp only [atColumn, mapError_eq_ok_iff, bind_eq_ok_iff] at h
      obtain ⟨e, he, h⟩ := h
      refine Except.ok.inj h ▸ ⟨rfl, ⟨e, here⟩, ?_, rfl⟩
      unfold Reached.condition
      dsimp only
      rw [he]
      rfl
  · next hglobal hexclude =>
    have hdirective : d ≠ .global ∧ d ≠ .excludeIf := ⟨hglobal, hexclude⟩
    simp only [hdirective.1, hdirective.2, decide_false, Bool.false_and]
    exact Except.ok.inj h ▸ ⟨rfl, rfl⟩

/-- A line carries out the definition that it is, if it is one, and puts aside the condition. -/
theorem scanLine_eq_ok {s after : Scan} {here : Position} {content : Text}
    (h : scanLine marker s here content = .ok after) :
    (reachedAt? marker .global s here content).toList.foldlM Reached.define s.globals =
      .ok after.globals ∧
    after.exclusions.map .ok = s.exclusions.map .ok ++
      (reachedAt? marker .excludeIf s here content).toList.map Reached.condition := by
  unfold scanLine at h
  unfold reachedAt?
  match hkind : lineKind marker content with
  | .plain =>
    rw [hkind] at h
    exact Except.ok.inj h ▸ ⟨rfl, (List.append_nil _).symm⟩
  | .unknown rest =>
    rw [hkind] at h
    exact Except.ok.inj h ▸ ⟨rfl, (List.append_nil _).symm⟩
  | .directive d argument =>
    rw [hkind] at h
    obtain ⟨hglobals, hexclusions⟩ := scanDirective_eq_ok h
    dsimp only
    constructor
    · rw [← hglobals]
      split
      · show Reached.define s.globals ⟨here, argument⟩ >>= pure = _
        rw [bind_pure]
      · rfl
    · split at hexclusions
      · next hreached =>
        obtain ⟨e, he, hafter⟩ := hexclusions
        rw [if_pos hreached, hafter, List.map_append]
        exact congrArg (_ ++ [·]) he.symm
      · next hreached =>
        rw [if_neg hreached, hexclusions]
        exact (List.append_nil _).symm

theorem scanLines_eq_ok (contents : List Text) : ∀ {line : Nat} {s after : Scan},
    scanLines marker file line contents s = (.ok (), after) →
      (reachedFrom marker .global file line contents s).foldlM Reached.define s.globals =
        .ok after.globals ∧
      after.exclusions.map .ok = s.exclusions.map .ok ++
        (reachedFrom marker .excludeIf file line contents s).map Reached.condition := by
  induction contents with
  | nil =>
    intro line s after h
    obtain ⟨-, rfl⟩ := Prod.mk.inj h
    exact ⟨rfl, (List.append_nil _).symm⟩
  | cons content contents ih =>
    intro line s after h
    rw [scanLines] at h
    rw [reachedFrom, reachedFrom]
    cases hline : scanLine marker s ⟨file, line⟩ content with
    | error fault =>
      rw [hline] at h
      cases h
    | ok next =>
      rw [hline] at h
      obtain ⟨hglobals, hexclusions⟩ := scanLine_eq_ok hline
      obtain ⟨hrest, hothers⟩ := ih h
      constructor
      · rw [List.foldlM_append, hglobals]
        exact hrest
      · rw [hothers, hexclusions, List.map_append, List.append_assoc]

end Lines

namespace Preprocessor

/-- The directives of the given kind that the global pass comes to in an active branch, when it goes
through files one after the other. -/
def reached (p : Preprocessor) (d : Directive) : List (SourceFile × Text) → Table → List Reached
  | [], _ => []
  | (file, t) :: files, globals =>
    reachedFrom p.settings.marker d file.path 1 (Text.lines t) (.start globals) ++
      p.reached d files (scanFile p.settings.marker file.path t globals).2.globals

/-- The pass over a file that does not fail ends where the pass over its lines does. -/
theorem scanLines_of_scanFile {marker : Text} {file : Path} {t : Text} {globals : Table}
    {scan : Scan} (h : scanFile marker file t globals = (.ok (), scan)) :
    scanLines marker file 1 (Text.lines t) (.start globals) = (.ok (), scan) := by
  unfold scanFile at h
  split at h
  · cases h
  · next after hlines =>
    rw [hlines]
    split at h
    · exact h
    · cases h

/-- **The global pass in two lists.** Its variables at the end are what the definitions make of
those at its start, one after the other, and its conditions are those that it came to. -/
theorem globalPass_eq_ok {p : Preprocessor} {texts : List (SourceFile × Text)} :
    ∀ {globals last : Table} {exclusions : List Exclusion},
      p.globalPass texts globals = .ok (exclusions, last) →
        (p.reached .global texts globals).foldlM Reached.define globals = .ok last ∧
        exclusions.map .ok = (p.reached .excludeIf texts globals).map Reached.condition := by
  induction texts with
  | nil =>
    intro globals last exclusions h
    obtain ⟨rfl, rfl⟩ := Prod.mk.inj (Except.ok.inj h)
    exact ⟨rfl, rfl⟩
  | cons head texts ih =>
    obtain ⟨file, t⟩ := head
    intro globals last exclusions h
    unfold globalPass at h
    rcases hscan : scanFile p.settings.marker file.path t globals with ⟨d | _, scan⟩
    · rw [hscan] at h
      cases h
    · rw [hscan] at h
      obtain ⟨⟨others, after⟩, hrest, h⟩ := bind_eq_ok_iff.1 h
      obtain ⟨rfl, rfl⟩ := Prod.mk.inj (Except.ok.inj h)
      obtain ⟨hglobals, hexclusions⟩ := scanLines_eq_ok _ (scanLines_of_scanFile hscan)
      obtain ⟨hlast, hothers⟩ := ih hrest
      rw [reached, reached, hscan]
      constructor
      · rw [List.foldlM_append]
        show (_ >>= fun _ => _) = _
        rw [show List.foldlM _ globals _ = _ from hglobals]
        exact hlast
      · rw [List.map_append, hexclusions, hothers, List.map_append]
        rfl

end Preprocessor

/-! ## What a run does with the conditions -/

/-- Every condition was put aside at a directive, and every directive put one aside. -/
theorem exists_reached {rs : List Reached} {es : List Exclusion}
    (h : es.map .ok = rs.map Reached.condition) :
    (∀ e ∈ es, ∃ r ∈ rs, r.condition = .ok e) ∧ ∀ r ∈ rs, ∃ e ∈ es, r.condition = .ok e := by
  constructor
  · intro e he
    have hmem : Except.ok e ∈ rs.map Reached.condition := h ▸ List.mem_map_of_mem he
    obtain ⟨r, hr, hcondition⟩ := List.mem_map.1 hmem
    exact ⟨r, hr, hcondition⟩
  · intro r hr
    have hmem : r.condition ∈ es.map Except.ok := h ▸ List.mem_map_of_mem hr
    obtain ⟨e, he, hcondition⟩ := List.mem_map.1 hmem
    exact ⟨e, he, hcondition.symm⟩

/-- One of the conditions that the global pass came to in a file holds for the given variables. -/
def LeftOut (rs : List Reached) (globals : Table) (path : Path) : Prop :=
  ∃ r ∈ rs, path.same r.position.file = true ∧ r.holds globals = .ok true

theorem leftOut_iff {rs : List Reached} {es : List Exclusion}
    (h : es.map .ok = rs.map Reached.condition) (globals : Table) (path : Path) :
    LeftOut rs globals path ↔
      ∃ e ∈ es, path.same e.position.file = true ∧ e.holds globals = .ok true := by
  constructor
  · rintro ⟨r, hr, hpath, hholds⟩
    obtain ⟨e, he, hcondition⟩ := (exists_reached h).2 r hr
    refine ⟨e, he, ?_, (Reached.holds_iff hcondition globals true).2 hholds⟩
    obtain ⟨condition, -, rfl⟩ := map_eq_ok_iff.1 hcondition
    exact hpath
  · rintro ⟨e, he, hpath, hholds⟩
    obtain ⟨r, hr, hcondition⟩ := (exists_reached h).1 e he
    refine ⟨r, hr, ?_, (Reached.holds_iff hcondition globals true).1 hholds⟩
    obtain ⟨condition, -, rfl⟩ := map_eq_ok_iff.1 hcondition
    exact hpath

theorem settled_iff {rs : List Reached} {es : List Exclusion}
    (h : es.map .ok = rs.map Reached.condition) (globals : Table) :
    Settled globals es ↔ ∀ r ∈ rs, ∃ b, r.holds globals = .ok b := by
  constructor
  · intro hsettled r hr
    obtain ⟨e, he, hcondition⟩ := (exists_reached h).2 r hr
    obtain ⟨b, hb⟩ := hsettled e he
    exact ⟨b, (Reached.holds_iff hcondition globals b).1 hb⟩
  · intro hholds e he
    obtain ⟨r, hr, hcondition⟩ := (exists_reached h).1 e he
    obtain ⟨b, hb⟩ := hholds r hr
    exact ⟨b, (Reached.holds_iff hcondition globals b).2 hb⟩

namespace Preprocessor

variable {p : Preprocessor}

theorem exec_noteSkipped (files : List SourceFile) : ∀ w : World,
    ∃ log, (noteSkipped files).exec w = (.ok (), { w with log }) := by
  induction files with
  | nil => exact fun w => ⟨w.log, rfl⟩
  | cons file files ih =>
    intro w
    unfold noteSkipped
    rw [Run.exec_bind_of_ok (Run.exec_note _ _ w)]
    exact ih _

theorem exec_scan_of_ok {file : Path} {t : Text} {w : World} {s : Scan}
    (h : scanFile p.settings.marker file t w.globals = (.ok (), s)) :
    (p.scan file t).exec w =
      (.ok s.exclusions, { w with globals := s.globals, log := w.log ++ s.log }) := by
  unfold scan
  rw [Run.exec_bind_of_ok (Run.exec_get w)]
  dsimp only
  rw [h]
  rfl

/-- Files that can be read and scanned are. -/
theorem exec_scanAll {texts : List (SourceFile × Text)} :
    ∀ {w : World} {exclusions : List Exclusion} {last : Table},
      (∀ scanned ∈ texts, w.files.readText scanned.1.path = .ok scanned.2) →
      p.globalPass texts w.globals = .ok (exclusions, last) →
        ∃ log, (p.scanAll (texts.map Prod.fst)).exec w =
          (.ok (texts, exclusions), { w with globals := last, log }) := by
  induction texts with
  | nil =>
    intro w exclusions last _ hpass
    obtain ⟨rfl, rfl⟩ := Prod.mk.inj (Except.ok.inj hpass)
    exact ⟨w.log, rfl⟩
  | cons head texts ih =>
    obtain ⟨file, t⟩ := head
    intro w exclusions last htexts hpass
    rw [List.forall_mem_cons] at htexts
    unfold globalPass at hpass
    rcases hscan : scanFile p.settings.marker file.path t w.globals with ⟨d | _, scan⟩
    · rw [hscan] at hpass
      cases hpass
    · rw [hscan] at hpass
      obtain ⟨⟨others, after⟩, hrest, hpass⟩ := bind_eq_ok_iff.1 hpass
      obtain ⟨rfl, rfl⟩ := Prod.mk.inj (Except.ok.inj hpass)
      obtain ⟨log, hothers⟩ := ih (w := { w with
        globals := scan.globals
        log := w.log ++ scan.log }) htexts.2 hrest
      have hread : (Run.readText file.path).exec w = (.ok t, w) := by
        show ((w.files.readText file.path).mapError _, w) = _
        rw [htexts.1]
        rfl
      refine ⟨log, ?_⟩
      rw [List.map_cons, scanAll, Run.exec_bind_of_ok hread,
        Run.exec_bind_of_ok (exec_scan_of_ok hscan), Run.exec_bind_of_ok hothers]
      rfl

/-- Processing files without those that are left out is processing the others. -/
theorem processAll_eq_filter (p : Preprocessor) (excluded : List Path)
    (texts : List (SourceFile × Text)) :
    p.processAll excluded texts =
      p.processAll [] (texts.filter fun scanned => !excluded.any scanned.1.path.same) := by
  induction texts with
  | nil => rfl
  | cons head texts ih =>
    obtain ⟨file, t⟩ := head
    rw [processAll]
    by_cases h : excluded.any file.path.same = true
    · rw [if_pos h, List.filter_cons_of_neg (by simp [h]), ih]
    · rw [if_neg h, List.filter_cons_of_pos (by simp [h]), ih]
      rfl

/-- What is delivered is what is delivered from the files that are not left out. -/
theorem deliver_eq_filter (p : Preprocessor) (s : Survey) :
    p.deliver s = p.deliver { s with
      texts := s.texts.filter fun scanned => !s.excluded.any scanned.1.path.same
      excluded := [] } := by
  unfold deliver
  rw [processAll_eq_filter]
  rfl

/-! ## The decision -/

section Decision

variable {w loaded : World} {found : List SourceFile} {texts : List (SourceFile × Text)}
  {exclusions : List Exclusion} {last : Table}

/-- Once the files are scanned, the rest of the survey is about the conditions. -/
theorem exec_survey_of_scanned
    (hload : (loadConfiguration p.settings.configurationFiles).exec w = (.ok (), loaded))
    (hcollect : p.collect w.files = .ok found)
    (hread : texts.map Prod.fst = p.withHandling .process found)
    (htexts : ∀ scanned ∈ texts, w.files.readText scanned.1.path = .ok scanned.2)
    (hscan : p.globalPass texts loaded.globals = .ok (exclusions, last)) :
    ∃ log, p.survey.exec w = (do
      let excluded ← excludedFiles exclusions []
      return (⟨found, texts, exclusions, excluded⟩ : Survey)).exec
        { loaded with globals := last, log } := by
  have hfiles : loaded.files = w.files := congrArg Prod.fst ((keeps_loadConfiguration _).eq hload)
  rw [← hfiles] at hcollect
  obtain ⟨skipped, hskipped⟩ := exec_noteSkipped (p.withHandling .exclude found) loaded
  obtain ⟨log, hall⟩ := exec_scanAll (p := p) (w := { loaded with
    log := skipped ++ [⟨.information, "Global pass over " ++
      toString (p.withHandling .process found).length ++ " files"⟩] })
    (hfiles ▸ htexts) hscan
  rw [hread] at hall
  refine ⟨log, ?_⟩
  unfold survey
  rw [Run.exec_bind_of_ok hload, Run.exec_bind_of_ok (Run.exec_get loaded), hcollect]
  show (noteSkipped _ >>= fun _ => _).exec loaded = _
  rw [Run.exec_bind_of_ok hskipped, Run.exec_bind_of_ok (Run.exec_note _ _ _),
    Run.exec_bind_of_ok hall]

/-- Whether a file is left out depends on the conditions that were reached in it, and for each of
them on the last values of the names in it. -/
theorem leftOut_congr {rs rs' : List Reached} {globals globals' : Table} {path : Path}
    (h : ∀ r ∈ rs, path.same r.position.file = true → ∃ r' ∈ rs',
      path.same r'.position.file = true ∧ r'.argument = r.argument ∧
        Context.AgreeOn r.argument (r'.scope globals').get? (r.scope globals).get?)
    (hleft : LeftOut rs globals path) : LeftOut rs' globals' path := by
  obtain ⟨r, hr, hpath, hholds⟩ := hleft
  obtain ⟨r', hr', hpath', hargument, hagree⟩ := h r hr hpath
  exact ⟨r', hr', hpath', (Reached.holds_congr hargument hagree).trans hholds⟩

/-- **A file is left out for the last values of the variables.** Let the global pass over the files
that are processed end with some variables.

They are what the definitions reached in the files make of those before, one after the other.

Let each of the conditions that were reached have an answer for these variables. Then the second
half of the run goes through the files that no condition of their own leaves out, as if there were
no others.

If there is one that has no answer, then the run stops, with the files as they were.

Let the pass over other texts end as well, or over the same texts in another order, and let it reach
the same conditions for a path, which see the same last values for the names in them. Then it
leaves out that path if and only if the first one does: where the definitions of these names stand
is of no account. -/
theorem run_leaves_out
    (hload : (loadConfiguration p.settings.configurationFiles).exec w = (.ok (), loaded))
    (hcollect : p.collect w.files = .ok found)
    (hread : texts.map Prod.fst = p.withHandling .process found)
    (htexts : ∀ scanned ∈ texts, w.files.readText scanned.1.path = .ok scanned.2)
    (hscan : p.globalPass texts loaded.globals = .ok (exclusions, last)) :
    (p.reached .global texts loaded.globals).foldlM Reached.define loaded.globals = .ok last ∧
    ((∀ r ∈ p.reached .excludeIf texts loaded.globals, ∃ b, r.holds last = .ok b) →
      ∃ s after, p.survey.exec w = (.ok s, after) ∧
        s.found = found ∧ s.texts = texts ∧ after.globals = last ∧ after.files = w.files ∧
        (∀ path : Path, s.excluded.any path.same = true ↔
          LeftOut (p.reached .excludeIf texts loaded.globals) last path) ∧
        p.run.exec w = (do
          p.prepare s
          p.deliver { s with
            texts := texts.filter fun scanned => !s.excluded.any scanned.1.path.same
            excluded := [] }).exec after) ∧
    ((∃ r ∈ p.reached .excludeIf texts loaded.globals, ∀ b, r.holds last ≠ .ok b) →
      ∃ d failed, p.run.exec w = (.error d, failed) ∧ failed.files = w.files) ∧
    ∀ texts' globals' exclusions' last' path,
      p.globalPass texts' globals' = .ok (exclusions', last') →
      (∀ r ∈ p.reached .excludeIf texts loaded.globals, path.same r.position.file = true →
        ∃ r' ∈ p.reached .excludeIf texts' globals', path.same r'.position.file = true ∧
          r'.argument = r.argument ∧
          Context.AgreeOn r.argument (r'.scope last').get? (r.scope last).get?) →
      (∀ r' ∈ p.reached .excludeIf texts' globals', path.same r'.position.file = true →
        ∃ r ∈ p.reached .excludeIf texts loaded.globals, path.same r.position.file = true ∧
          r.argument = r'.argument ∧
          Context.AgreeOn r'.argument (r.scope last).get? (r'.scope last').get?) →
      (LeftOut (p.reached .excludeIf texts' globals') last' path ↔
        LeftOut (p.reached .excludeIf texts loaded.globals) last path) := by
  have hfiles : loaded.files = w.files := congrArg Prod.fst ((keeps_loadConfiguration _).eq hload)
  obtain ⟨hdefined, hconditions⟩ := globalPass_eq_ok hscan
  obtain ⟨log, hsurvey⟩ := exec_survey_of_scanned hload hcollect hread htexts hscan
  refine ⟨hdefined, ?_, ?_, ?_⟩
  · intro hanswers
    have hsettled : Settled last exclusions := (settled_iff hconditions last).2 hanswers
    obtain ⟨left, log', hleft, hsame⟩ := excludedFiles_of_settled
      (w := { loaded with globals := last, log }) hsettled
    rw [Run.exec_bind_of_ok hleft] at hsurvey
    refine ⟨_, _, hsurvey, rfl, rfl, rfl, hfiles, ?_, ?_⟩
    · intro path
      rw [leftOut_iff hconditions]
      exact hsame path
    · rw [run_eq, Run.exec_bind_of_ok hsurvey, deliver_eq_filter]
  · rintro ⟨r, hr, hnone⟩
    have hunsettled : ¬ Settled last exclusions := by
      intro hsettled
      obtain ⟨b, hb⟩ := (settled_iff hconditions last).1 hsettled r hr
      exact hnone b hb
    rcases settled_or_fails last exclusions with hsettled | ⟨before, e, rest, d, rfl, hbefore, he⟩
    · exact absurd hsettled hunsettled
    · obtain ⟨log', hfails⟩ : ∃ log', (excludedFiles (before ++ e :: rest) []).exec
          { loaded with globals := last, log } =
            (.error d, { loaded with globals := last, log := log' }) :=
        excludedFiles_of_failure hbefore he
      rw [Run.exec_bind_of_error hfails] at hsurvey
      rw [run_eq]
      exact ⟨d, _, Run.exec_bind_of_error hsurvey, hfiles⟩
  · intro texts' globals' exclusions' last' path _ hto hback
    exact ⟨leftOut_congr hback, leftOut_congr hto⟩

end Decision

end Preprocessor

/-! ## A condition before its definition -/

/-- The run over a file with a condition, and a second file that defines what the condition asks
for. -/
def flagRun : Preprocessor where
  settings := { sources := [⟨"src".toList⟩], destination := ⟨"out".toList⟩ }
  extension := none

/-- The two files. -/
def flagTexts : List (SourceFile × Text) :=
  [(⟨⟨"src/a.txt".toList⟩, ⟨"a.txt".toList⟩⟩, "//#excludeif flag\na\n".toList),
    (⟨⟨"src/b.txt".toList⟩, ⟨"b.txt".toList⟩⟩, "//#global flag = true\nb\n".toList)]

/-- The world that they are in. -/
def flagWorld : World where
  globals := .empty
  files :=
    { entries := (["src".toList], .directory) ::
        flagTexts.map fun scanned => (["src".toList, scanned.1.relative.text], .file (.text scanned.2))
      workingDirectory := [] }
  actions := []
  log := []

/-- The variables after the global pass. -/
def flagLast : Table := ((flagRun.globalPass flagTexts .empty).toOption.map Prod.snd).getD .empty

/-- The first file is left out, and the second one is all that the run goes through. -/
theorem flagRun_leaves_out : ∃ s after, flagRun.survey.exec flagWorld = (.ok s, after) ∧
    s.excluded.any (Path.same ⟨"src/a.txt".toList⟩) = true ∧
    s.excluded.any (Path.same ⟨"src/b.txt".toList⟩) = false ∧
    flagRun.run.exec flagWorld = (do
      flagRun.prepare s
      flagRun.deliver { s with
        texts := flagTexts.filter fun scanned => !s.excluded.any scanned.1.path.same
        excluded := [] }).exec after := by
  have hsome : (flagRun.globalPass flagTexts .empty).toOption.isSome = true := by decide +kernel
  obtain ⟨⟨exclusions, last⟩, hpass⟩ := Option.isSome_iff_exists.1 hsome
  have hlast : last = flagLast := by
    rw [flagLast, hpass]
    rfl
  have hcollect : (flagRun.collect flagWorld.files).toOption = some (flagTexts.map Prod.fst) := by
    decide +kernel
  have htexts : ∀ scanned ∈ flagTexts,
      (flagWorld.files.readText scanned.1.path).toOption = some scanned.2 := by decide +kernel
  have hanswers : ∀ r ∈ flagRun.reached .excludeIf flagTexts .empty,
      (r.holds flagLast).toOption = some true ∧ r.position.file = ⟨"src/a.txt".toList⟩ := by
    decide +kernel
  have hreached : ⟨⟨⟨"src/a.txt".toList⟩, 1⟩, " flag".toList⟩ ∈
      flagRun.reached .excludeIf flagTexts .empty := by decide +kernel
  have hload : (loadConfiguration flagRun.settings.configurationFiles).exec flagWorld =
      (.ok (), flagWorld) := rfl
  obtain ⟨-, hrun, -⟩ := Preprocessor.run_leaves_out hload (eq_ok_of_toOption hcollect)
    (by decide +kernel) (fun scanned hscanned => eq_ok_of_toOption (htexts scanned hscanned))
    (eq_ok_of_toOption hpass)
  obtain ⟨s, after, hsurvey, -, -, -, -, hleft, hrun⟩ := hrun fun r hr =>
    ⟨true, hlast ▸ eq_ok_of_toOption (hanswers r hr).1⟩
  refine ⟨s, after, hsurvey, ?_, ?_, hrun⟩
  · refine (hleft _).2 ⟨_, hreached, by decide +kernel, ?_⟩
    rw [hlast]
    exact eq_ok_of_toOption (hanswers _ hreached).1
  · refine Bool.eq_false_iff.2 fun hb => ?_
    obtain ⟨r, hr, hsame, -⟩ := (hleft _).1 hb
    rw [(hanswers r hr).2] at hsame
    exact absurd hsame (by decide +kernel)

end SourcePreprocessor
