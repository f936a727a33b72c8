import SourcePreprocessor.Pass.Global
import SourcePreprocessor.Proofs.Expr.Names
import SourcePreprocessor.Proofs.Pass.Step

/-!
# A file at another path

A file can look at its own path through three of the special variables. One of them is only its
name; a text that does not mention the other two cannot tell two paths apart that end in the same
name (`SeenAlike`). Without an extension and without includes, nothing else in the two passes
depends on the path, so both passes go the same way from either of them:

> `scanFile_moved`: the global pass gives the same variables and the same conditions;
> `processFile_moved`: the line pass gives the same output;

and where one pass fails at the first path, it fails at the second one for the same cause on the
same line. What differs is the file that a diagnostic names and what the log says.
-/

namespace SourcePreprocessor

/-- The text cannot tell the two paths apart: their file names are the same, and it mentions neither
the whole path nor the folder. -/
structure SeenAlike (file file' : Path) (t : Text) : Prop where
  fileName : file'.fileName? = file.fileName?
  path : ¬ Text.Mentions "__file__".toList t
  folder : ¬ Text.Mentions "__filefolder__".toList t

theorem SeenAlike.mono {file file' : Path} {t u : Text} (h : SeenAlike file file' t)
    (hu : u <:+: t) : SeenAlike file file' u :=
  ⟨h.fileName, fun hpath => h.path (hpath.mono hu), fun hfolder => h.folder (hfolder.mono hu)⟩

/-- So an expression of the text sees the same variables from both paths. -/
theorem SeenAlike.agreeOn {file file' : Path} {t : Text} (h : SeenAlike file file' t) (line : Nat)
    (locals : Option Table) (globals : Table) :
    Context.AgreeOn t (Scope.mk file' line locals globals).get?
      (Scope.mk file line locals globals).get? := by
  intro name hname
  have hpath : name ≠ "__file__".toList := fun heq => h.path (heq ▸ hname)
  have hfolder : name ≠ "__filefolder__".toList := fun heq => h.folder (heq ▸ hname)
  unfold Scope.get? Scope.special?
  rw [if_neg hpath, if_neg hpath, if_neg hfolder, if_neg hfolder, h.fileName]

/-! ## What a line sees -/

section Scopes

variable {s s' : Scope} {d : Directive} {argument : Text}

theorem parse_of_expressionArgument {e : Expression} (h : d.expressionArgument argument = .ok e) :
    parse (Text.trim argument) = .ok e := by
  obtain ⟨source, hsource, hparse⟩ := bind_eq_ok_iff.1 h
  obtain rfl := eq_trim_of_neededArgument (mapError_eq_ok_iff.1 hsource)
  exact mapError_eq_ok_iff.1 hparse

theorem mentions_of_variableArgument {name : Text} (h : d.variableArgument argument = .ok name) :
    Text.Mentions name argument := by
  obtain ⟨whole, hwhole, h⟩ := bind_eq_ok_iff.1 h
  obtain rfl := eq_trim_of_neededArgument hwhole
  split at h
  · exact ⟨Text.trim argument, Text.trim_part argument, Except.ok.inj h⟩
  · nomatch h

theorem infix_of_assignmentArgument {name source : Text}
    (h : d.assignmentArgument argument = .ok (name, source)) : source <:+: argument := by
  unfold Directive.assignmentArgument at h
  split at h
  · next before c after hcut =>
    split at h
    · obtain ⟨-, rfl⟩ := Prod.mk.inj (Except.ok.inj h)
      exact (Text.trimStart_suffix after).isInfix.trans (Text.infix_of_cutAt? hcut).2
    · nomatch h
  · nomatch h

theorem conditionHolds_congr (h : Context.AgreeOn argument s'.get? s.get?) :
    conditionHolds s' d argument = conditionHolds s d argument := by
  have hvariable {name : Text} (hname : (d.variableArgument argument).mapError Cause.structural =
      .ok name) : s'.get? name = s.get? name :=
    h name (mentions_of_variableArgument (mapError_eq_ok_iff.1 hname))
  unfold conditionHolds
  split
  · exact bind_congr_of_ok fun name hname => by rw [hvariable hname]
  · exact bind_congr_of_ok fun name hname => by rw [hvariable hname]
  · refine bind_congr_of_ok fun e he => ?_
    rw [condition_agreeOn (parse_of_expressionArgument he) (h.mono (Text.trim_part argument))]

theorem conditionIf_congr (h : Context.AgreeOn argument s'.get? s.get?) (wanted : Bool) :
    conditionIf wanted s' d argument = conditionIf wanted s d argument := by
  unfold conditionIf
  rw [conditionHolds_congr h]

theorem conditionalBlocks_congr (h : Context.AgreeOn argument s'.get? s.get?)
    (hline : s'.line = s.line) (blocks : BlockStack) :
    conditionalBlocks s' blocks d argument = conditionalBlocks s blocks d argument := by
  unfold conditionalBlocks
  split
  · simp only [conditionIf_congr h]
  · rfl
  · rfl
  · rw [conditionIf_congr h, hline]

theorem lineValue_congr {source : Text} (h : Context.AgreeOn source s'.get? s.get?) :
    lineValue s' source = lineValue s source :=
  bind_congr_of_ok fun e he => by rw [eval_agreeOn (mapError_eq_ok_iff.1 he) h]

theorem localEffect_congr (h : Context.AgreeOn argument s'.get? s.get?) (column : Nat) :
    localEffect s' d argument column = localEffect s d argument column := by
  refine bind_congr_of_ok fun ⟨name, source⟩ hassign => ?_
  have hsource : source <:+: argument :=
    infix_of_assignmentArgument (mapError_eq_ok_iff.1 (mapError_eq_ok_iff.1 hassign))
  dsimp only
  rw [lineValue_congr (h.mono ((Text.trimEnd_part source).trans hsource))]

theorem defineEffect_congr (h : Context.AgreeOn argument s'.get? s.get?) (column : Nat) :
    defineEffect s' d argument column = defineEffect s d argument column := by
  unfold defineEffect
  dsimp only
  cases hcut : Text.cutAt? Text.isBlank (Text.trim argument) with
  | none => rfl
  | some cut =>
    obtain ⟨name, c, rest⟩ := cut
    have hrest : Text.trimStart rest <:+: argument :=
      (Text.trimStart_suffix rest).isInfix.trans
        ((Text.infix_of_cutAt? hcut).2.trans (Text.trim_part argument))
    dsimp only
    rw [lineValue_congr (h.mono hrest)]

theorem renderPieces_congr {ps : List Piece}
    (h : ∀ column body, Piece.insertion column body ∈ ps →
      Context.AgreeOn body s'.get? s.get?) : renderPieces s' ps = renderPieces s ps := by
  induction ps with
  | nil => rfl
  | cons p ps ih =>
    have hfirst : p.render s' = p.render s := by
      match p with
      | .plain c => rfl
      | .insertion column body =>
        refine congrArg (atColumn _) (bind_congr_of_ok fun e he => ?_)
        rw [eval_agreeOn (mapError_eq_ok_iff.1 he)
          ((h column body List.mem_cons_self).mono (Text.trim_part body))]
    rw [renderPieces, renderPieces, hfirst,
      ih fun column body hmem => h column body (List.mem_cons_of_mem p hmem)]

theorem insertValues_congr {t : Text} (h : Context.AgreeOn t s'.get? s.get?) (column : Nat) :
    insertValues s' column t = insertValues s column t :=
  renderPieces_congr fun _ _ hmem => h.mono (infix_of_mem_piecesFrom hmem)

theorem renderLine_congr {content : Text} (h : Context.AgreeOn content s'.get? s.get?) :
    renderLine s' content = renderLine s content := by
  unfold renderLine
  dsimp only
  cases Text.stripStart? rawMark (Text.trimStart content) with
  | some rest => rfl
  | none =>
    cases hrest : Text.stripStart? uncommentMark (Text.trimStart content) with
    | none => exact insertValues_congr h 1
    | some rest =>
      have hinfix : rest <:+: content := ((Text.suffix_of_stripStart? hrest).trans
        (Text.trimStart_suffix content)).isInfix
      dsimp only
      rw [insertValues_congr (h.mono hinfix)]

theorem lineValues_congr {es : List Expression} (h : ∀ e ∈ es, e.eval s'.get? = e.eval s.get?) :
    lineValues s' es = lineValues s es := by
  induction es with
  | nil => rfl
  | cons e es ih =>
    rw [List.forall_mem_cons] at h
    rw [lineValues, lineValues, h.1, ih h.2]

theorem actionEffect_congr (h : Context.AgreeOn argument s'.get? s.get?)
    (extension : Option Extension) (column : Nat) :
    actionEffect extension s' d argument column = actionEffect extension s d argument column := by
  cases extension with
  | none => rfl
  | some x =>
    refine congrArg (atColumn column) (bind_congr_of_ok fun es hes => ?_)
    obtain ⟨source, hsource, hparse⟩ := bind_eq_ok_iff.1 hes
    obtain rfl := eq_trim_of_neededArgument (mapError_eq_ok_iff.1 hsource)
    rw [lineValues_congr (eval_agreeOn_of_parseList (mapError_eq_ok_iff.1 hparse)
      (h.mono (Text.trim_part argument)))]

/-- Only an include looks at anything but the variables that the line mentions. -/
theorem directiveEffect_congr {env : Environment} (hd : d ≠ .includeFile)
    (h : Context.AgreeOn argument s'.get? s.get?) (files : FileTree)
    (chain chain' : List Position) (column : Nat) :
    directiveEffect { env with files } chain' s' d argument column =
      directiveEffect env chain s d argument column := by
  have hinsert : insertValues s' column (Text.trim argument) =
      insertValues s column (Text.trim argument) :=
    insertValues_congr (h.mono (Text.trim_part argument)) column
  unfold directiveEffect
  split
  · exact localEffect_congr h column
  · exact defineEffect_congr h column
  · rfl
  · rfl
  · rfl
  · exact actionEffect_congr h env.extension column
  · unfold reportEffect
    rw [hinsert]
  · unfold reportEffect
    rw [hinsert]
  · unfold errorEffect
    rw [hinsert]
  · rfl
  · rw [conditionHolds_congr h]
  · exact absurd rfl hd
  · rfl

end Scopes

/-- The failure with another file named. -/
def Diagnostic.movedTo (file : Path) (d : Diagnostic) : Diagnostic := { d with file := some file }

/-! ## The line pass -/

/-- The second result is the first one at another path: it goes on, stops or fails as the first one
does, and the machines differ in nothing but their logs. -/
def Moved (file : Path) (r r' : Processed) : Prop :=
  ∃ log, r' = (r.1.mapError (·.movedTo file), { r.2 with log })

/-- Steps that correspond do so one after the other. -/
theorem Moved.goOn {file : Path} {r r' : Processed} {f f' : Machine → Processed}
    (h : Moved file r r') (hf : ∀ m log, Moved file (f m) (f' { m with log })) :
    Moved file (goOn r f) (SourcePreprocessor.goOn r' f') := by
  obtain ⟨log, rfl⟩ := h
  match r with
  | (.error d, m) => exact ⟨log, rfl⟩
  | (.ok .stop, m) => exact ⟨log, rfl⟩
  | (.ok .next, m) => exact hf m log

section Lines

variable {file file' : Path} {env : Environment} {content : Text}

/-- A line that includes nothing asks for the same at both paths. -/
theorem lineEffect_moved (hi : (lineKind env.marker content).isInclude = false)
    (h : SeenAlike file file' content)
    (files : FileTree) (line : Nat) (m : Machine) (log : List LogRecord) :
    lineEffect { env with files } [] ⟨file', line⟩ { m with log } content =
      lineEffect env [] ⟨file, line⟩ m content := by
  have hagree : Context.AgreeOn content (m.scope ⟨file', line⟩).get? (m.scope ⟨file, line⟩).get? :=
    h.agreeOn line (some m.state.locals) m.globals
  unfold lineEffect
  cases hkind : lineKind env.marker content with
  | plain =>
    show (if m.state.blocks.isActive then
      (renderLine (m.scope ⟨file', line⟩) content).map Effect.emit else _) = _
    rw [renderLine_congr hagree]
  | unknown rest => rfl
  | directive d argument =>
    have hargument : Context.AgreeOn argument (m.scope ⟨file', line⟩).get?
        (m.scope ⟨file, line⟩).get? := hagree.mono (infix_of_lineKind hkind)
    have hd : d ≠ .includeFile := by
      rintro rfl
      rw [hkind] at hi
      nomatch hi
    dsimp only
    rw [← directiveEffect_congr hd hargument files [] [],
      ← conditionalBlocks_congr hargument rfl m.state.blocks]
    rfl

variable {enter enter' : List Position → Path → Text → Machine → Processed}

theorem processLine_moved (hnone : env.extension = none)
    (hi : (lineKind env.marker content).isInclude = false) (h : SeenAlike file file' content)
    (files : FileTree) (line : Nat) (m : Machine) (log : List LogRecord) :
    Moved file' (processLine enter env [] ⟨file, line⟩ content m)
      (processLine enter' { env with files } [] ⟨file', line⟩ content { m with log }) := by
  unfold processLine
  rw [lineEffect_moved hi h files line m log]
  match heffect : lineEffect env [] ⟨file, line⟩ m content with
  | .error fault => exact ⟨log, rfl⟩
  | .ok .exit => exact ⟨log, rfl⟩
  | .ok (.enter target t) =>
    have hcases := lineEffect_eq_ok heffect
    simp [Effect.isOwn, hi] at hcases
  | .ok (.act x arguments column) =>
    -- there is nobody to act
    have hcases := lineEffect_eq_ok heffect
    simp [Effect.isOwn, hnone] at hcases
  | .ok (.report level t) => exact ⟨_, rfl⟩
  | .ok .nothing | .ok (.emit _) | .ok (.reblock _) | .ok (.bindLocal ..) | .ok (.bindGlobal ..)
  | .ok (.unbind _) | .ok (.redirect _) => exact ⟨log, rfl⟩

theorem lineStep_moved (hnone : env.extension = none)
    (hi : (lineKind env.marker content).isInclude = false) (h : SeenAlike file file' content)
    (files : FileTree) (line : Nat) (m : Machine) (log : List LogRecord) :
    Moved file' (lineStep enter env [] ⟨file, line⟩ content m)
      (lineStep enter' { env with files } [] ⟨file', line⟩ content { m with log }) := by
  have hline : Moved file' (processLine enter env [] ⟨file, line⟩ content m)
      (processLine enter' { env with files } [] ⟨file', line⟩ content { m with log }) :=
    processLine_moved hnone hi h files line m log
  obtain ⟨after, hafter⟩ := hline
  unfold lineStep
  rw [hafter]
  match processLine enter env [] ⟨file, line⟩ content m with
  | (.error d, m) => exact ⟨after, rfl⟩
  | (.ok .next, m) => exact ⟨after, rfl⟩
  | (.ok .stop, m) => exact ⟨_, rfl⟩

/-- The lines of a text can look at no more of the path than the text. -/
theorem processLines_moved (hnone : env.extension = none) (files : FileTree)
    (contents : List Text) : ∀ (line : Nat) (m : Machine) (log : List LogRecord),
    (∀ content ∈ contents, (lineKind env.marker content).isInclude = false) →
    (∀ content ∈ contents, SeenAlike file file' content) →
    Moved file' (processLines enter env [] file line contents m)
      (processLines enter' { env with files } [] file' line contents { m with log }) := by
  induction contents with
  | nil => exact fun _ m log _ _ => ⟨log, rfl⟩
  | cons content contents ih =>
    intro line m log hi h
    rw [List.forall_mem_cons] at hi h
    rw [processLines_cons, processLines_cons]
    exact (lineStep_moved hnone hi.1 h.1 files line m log).goOn
      fun m log => ih (line + 1) m log hi.2 h.2

end Lines

theorem checkClosed_moved (file file' : Path) (depth : Nat) (m : Machine) (log : List LogRecord) :
    Moved file' (checkClosed [] file depth m) (checkClosed [] file' depth { m with log }) := by
  unfold checkClosed
  cases m.state.blocks.unclosed? depth with
  | none => exact ⟨log, rfl⟩
  | some frame => exact ⟨log, rfl⟩

/-- **The line pass gives the same at both paths.** The files around it have no part in it. -/
theorem processFile_moved {file file' : Path} {t : Text} {env : Environment}
    (hnone : env.extension = none)
    (hi : ∀ content ∈ Text.lines t, (lineKind env.marker content).isInclude = false)
    (h : SeenAlike file file' t) (settings : Settings) (files : FileTree) (m : Machine)
    (log : List LogRecord) :
    (processFile { env with files } settings file' t { m with log }).1 =
      (processFile env settings file t m).1.mapError (·.movedTo file') := by
  have htext : Moved file' (processText env (includeBound env.files) [] file t m)
      (processText { env with files } (includeBound files) [] file' t { m with log }) := by
    unfold includeBound
    rw [processText_succ, processText_succ]
    exact (processLines_moved hnone files (Text.lines t) 1 m log hi
      fun content hcontent => h.mono (Text.infix_of_mem_lines hcontent)).goOn
        fun after log => checkClosed_moved file file' m.state.blocks.depth after log
  obtain ⟨after, hafter⟩ := htext
  have hbound : includeBound ({ env with files } : Environment).files = includeBound files := rfl
  rw [processFile_eq, processFile_eq, hbound, hafter]
  match processText env (includeBound env.files) [] file t m with
  | (.error d, m) => rfl
  | (.ok flow, m) => rfl

/-! ## The global pass -/

/-- The condition with another file named. -/
def Exclusion.movedTo (file : Path) (e : Exclusion) : Exclusion :=
  { e with position := { e.position with file } }

/-- The state of the pass with another file named, and with another log. -/
def Scan.movedTo (file : Path) (log : List LogRecord) (s : Scan) : Scan :=
  { s with exclusions := s.exclusions.map (·.movedTo file), log }

section Scans

variable {file file' : Path} {argument content : Text}

/-- A condition in the global pass sees the same from both paths. -/
theorem scope_agreeOn (h : SeenAlike file file' argument) (s : Scan) (log : List LogRecord)
    (line : Nat) : Context.AgreeOn argument ((s.movedTo file' log).scope ⟨file', line⟩).get?
      (s.scope ⟨file, line⟩).get? := h.agreeOn line none s.globals

theorem openBlock_moved (h : SeenAlike file file' argument) (s : Scan) (log : List LogRecord)
    (line : Nat) (d : Directive) :
    (s.movedTo file' log).openBlock ⟨file', line⟩ d argument =
      s.openBlock ⟨file, line⟩ d argument := by
  show (if s.blocks.isActive then _ else _) = _
  unfold Scan.openBlock
  split
  · refine bind_congr_of_ok fun e he => ?_
    rw [condition_agreeOn (parse_of_expressionArgument he)
      ((scope_agreeOn h s log line).mono (Text.trim_part argument))]
    rfl
  · rfl

/-- A definition of the global pass is the value of its expression, put under its name. -/
theorem define_of_assignment {s : Scan} {here : Position} {d : Directive} {name source : Text}
    (h : d.assignmentArgument argument = .ok (name, source)) (column : Nat) :
    s.define here d argument column =
      (atColumn (column + columnOf (Text.trimStart argument) source - 1)
        (lineValue (s.scope here) (Text.trimEnd source))).map fun v =>
          { s with
            globals := s.globals.set name v
            log := s.log ++ [⟨.detail, here.string ++ ": global " ++ name.string ++ " = " ++
              Text.string v.literal⟩] } := by
  unfold Scan.define lineValue
  rw [h]
  show atColumn _ (Except.mapError _ _ >>= _) = _
  cases parse (Text.trimEnd source) with
  | error e => rfl
  | ok e =>
    rw [mapError_ok, ok_bind, ok_bind]
    cases e.eval (s.scope here).get? with
    | error e => rfl
    | ok v => rfl

theorem define_moved (h : SeenAlike file file' argument) (s : Scan) (log : List LogRecord)
    (line : Nat) (d : Directive) (column : Nat) :
    ∃ after, (s.movedTo file' log).define ⟨file', line⟩ d argument column =
      (s.define ⟨file, line⟩ d argument column).map (·.movedTo file' after) := by
  cases hassign : d.assignmentArgument argument with
  | error e =>
    unfold Scan.define
    rw [hassign]
    exact ⟨log, rfl⟩
  | ok assignment =>
    obtain ⟨name, source⟩ := assignment
    have hsource : Text.trimEnd source <:+: argument :=
      (Text.trimEnd_part source).trans (infix_of_assignmentArgument hassign)
    rw [define_of_assignment hassign, define_of_assignment hassign,
      lineValue_congr ((scope_agreeOn h s log line).mono hsource)]
    cases lineValue (s.scope ⟨file, line⟩) (Text.trimEnd source) with
    | error cause => exact ⟨log, rfl⟩
    | ok v => exact ⟨_, rfl⟩

theorem scanDirective_moved (h : SeenAlike file file' argument) (s : Scan) (log : List LogRecord)
    (line : Nat) (d : Directive) (column : Nat) :
    ∃ after, scanDirective (s.movedTo file' log) ⟨file', line⟩ d argument column =
      (scanDirective s ⟨file, line⟩ d argument column).map (·.movedTo file' after) := by
  have hblocks : (s.movedTo file' log).blocks = s.blocks := rfl
  unfold scanDirective
  split
  · refine ⟨log, ?_⟩
    rw [openBlock_moved h]
    cases s.openBlock ⟨file, line⟩ .globalIf argument <;> rfl
  · refine ⟨log, ?_⟩
    rw [hblocks]
    cases Directive.noArgument .globalOtherwise argument with
    | error e => rfl
    | ok _ =>
      rw [ok_bind, ok_bind]
      cases s.blocks.otherwise .globalOtherwise <;> rfl
  · refine ⟨log, ?_⟩
    rw [hblocks]
    cases Directive.noArgument .globalEndIf argument with
    | error e => rfl
    | ok _ =>
      rw [ok_bind, ok_bind]
      cases s.blocks.close .globalEndIf <;> rfl
  · rw [hblocks]
    split
    · exact define_moved h s log line .global column
    · exact ⟨log, rfl⟩
  · rw [hblocks]
    split
    · refine ⟨log, ?_⟩
      cases Directive.expressionArgument .excludeIf argument with
      | error e => rfl
      | ok e =>
        have hexclusions : (s.movedTo file' log).exclusions ++ [Exclusion.mk e ⟨file', line⟩] =
            (s.exclusions ++ [Exclusion.mk e ⟨file, line⟩]).map (Exclusion.movedTo file') := by
          rw [List.map_append]
          rfl
        rw [ok_bind, ok_bind, hexclusions]
        rfl
    · exact ⟨log, rfl⟩
  · exact ⟨log, rfl⟩

theorem scanLine_moved (h : SeenAlike file file' content) (marker : Text) (s : Scan)
    (log : List LogRecord) (line : Nat) :
    ∃ after, scanLine marker (s.movedTo file' log) ⟨file', line⟩ content =
      (scanLine marker s ⟨file, line⟩ content).map (·.movedTo file' after) := by
  unfold scanLine
  match hkind : lineKind marker content with
  | .plain => exact ⟨log, rfl⟩
  | .unknown rest => exact ⟨log, rfl⟩
  | .directive d argument =>
    exact scanDirective_moved (h.mono (infix_of_lineKind hkind)) s log line d _

theorem scanLines_moved (marker : Text) (contents : List Text) :
    ∀ (line : Nat) (s : Scan) (log : List LogRecord),
      (∀ content ∈ contents, SeenAlike file file' content) →
      ∃ after, scanLines marker file' line contents (s.movedTo file' log) =
        ((scanLines marker file line contents s).1.mapError (·.movedTo file'),
          (scanLines marker file line contents s).2.movedTo file' after) := by
  induction contents with
  | nil => exact fun _ s log _ => ⟨log, rfl⟩
  | cons content contents ih =>
    intro line s log h
    rw [List.forall_mem_cons] at h
    obtain ⟨after, hafter⟩ := scanLine_moved h.1 marker s log line
    rw [scanLines, scanLines, hafter]
    cases scanLine marker s ⟨file, line⟩ content with
    | error fault => exact ⟨log, rfl⟩
    | ok next => exact ih (line + 1) next after h.2

end Scans

/-- **The global pass gives the same at both paths.** -/
theorem scanFile_moved {file file' : Path} {t : Text} (h : SeenAlike file file' t) (marker : Text)
    (globals : Table) :
    ∃ log, scanFile marker file' t globals =
      ((scanFile marker file t globals).1.mapError (·.movedTo file'),
        (scanFile marker file t globals).2.movedTo file' log) := by
  have hlines : ∀ content ∈ Text.lines t, SeenAlike file file' content :=
    fun content hcontent => h.mono (Text.infix_of_mem_lines hcontent)
  have hstart : Scan.start globals = (Scan.start globals).movedTo file' [] := rfl
  obtain ⟨log, hlog⟩ := scanLines_moved marker (Text.lines t) 1 (Scan.start globals) [] hlines
  rw [← hstart] at hlog
  unfold scanFile
  rw [hlog]
  match scanLines marker file 1 (Text.lines t) (Scan.start globals) with
  | (.error d, s) => exact ⟨log, rfl⟩
  | (.ok (), s) =>
    have hblocks : (s.movedTo file' log).blocks = s.blocks := rfl
    refine ⟨log, ?_⟩
    dsimp only [Except.mapError]
    rw [hblocks]
    cases s.blocks.unclosed? 0 <;> rfl

end SourcePreprocessor
