import Mathlib.Logic.Relation
import SourcePreprocessor.Proofs.Pass.Failure

/-!
# The course of a pass

A pass over a file goes from one line to the next. At an include it goes into another text and, when
that has come to its end, on to the line after the include. So wherever it stands there are a line,
the texts that are waiting for this one to end, and the machine: a `Stage`. `Step` is the way from
one stage to the next, and the whole pass is a row of such steps:

> `processFile_course`: from the start of the file steps lead to a stage at which the pass ends, and
> it ends there with the variables that it has, whether it succeeds or fails.

What is said of every stage of a pass is proved along these steps.
-/

namespace SourcePreprocessor

/-! ## Stages and steps -/

/-- How far the pass has come in a text, and how many blocks were open at its start. -/
structure Reading where
  file : Path
  text : Text
  /-- The number of lines that are done. -/
  done : Nat
  depth : Nat

namespace Reading

/-- The place of the next line. -/
def here (r : Reading) : Position := ⟨r.file, r.done + 1⟩

/-- The next line, unless all are done. -/
def content? (r : Reading) : Option Text := (Text.lines r.text)[r.done]?

/-- One more line is done. -/
def next (r : Reading) : Reading := { r with done := r.done + 1 }

/-- What is not done yet is the next line and what comes after it. -/
theorem content?_of_drop {r : Reading} {content : Text} {contents : List Text}
    (h : (Text.lines r.text).drop r.done = content :: contents) :
    r.content? = some content ∧ (Text.lines r.text).drop (r.done + 1) = contents := by
  have hget : ((Text.lines r.text).drop r.done)[0]? = some content := by
    rw [h, List.getElem?_cons_zero]
  refine ⟨by rwa [List.getElem?_drop] at hget, ?_⟩
  rw [← List.tail_drop, h, List.tail_cons]

end Reading

/-- Where a pass stands. -/
structure Stage where
  reading : Reading
  /-- The texts that wait for this one to end, the innermost first. Each stands at its include. -/
  around : List Reading
  machine : Machine

namespace Stage

/-- The lines through which the text was included, the outermost first. -/
def chain (s : Stage) : List Position := (s.around.map Reading.here).reverse

/-- The place of the next line. -/
def here (s : Stage) : Position := s.reading.here

/-- What the next line sees. -/
def scope (s : Stage) : Scope := s.machine.scope s.here

/-- The start of a text with a machine, in front of the texts that wait for it. -/
def begun (file : Path) (t : Text) (around : List Reading) (m : Machine) : Stage :=
  ⟨⟨file, t, 0, m.state.blocks.depth⟩, around, m⟩

/-- The start of a pass. -/
def start (file : Path) (t : Text) (m : Machine) : Stage := begun file t [] m

/-- One more line is done, and this is the machine after it. -/
def next (s : Stage) (after : Machine) : Stage := ⟨s.reading.next, s.around, after⟩

/-- The start of a text that the next line includes. -/
def entered (s : Stage) (target : Path) (u : Text) : Stage :=
  begun target u (s.reading :: s.around)
    (s.machine.note .detail (s.here.string ++ ": including " ++ target.string))

/-- The chain inside of a text that the next line includes. -/
theorem chain_inside (s : Stage) :
    ((s.reading :: s.around).map Reading.here).reverse = s.chain ++ [s.here] := List.reverse_cons

/-- What the next line asks for. -/
def effect (env : Environment) (s : Stage) (content : Text) : Except Fault Effect :=
  lineEffect env s.chain s.here s.machine content

/-- What carrying out the next line gives, if it enters no file. -/
def result (env : Environment) (s : Stage) (content : Text) : Processed :=
  processLine skipFile env s.chain s.here content s.machine

/-- The next line has this content and enters no file. -/
structure StaysAt (env : Environment) (s : Stage) (content : Text) : Prop where
  found : s.reading.content? = some content
  own : ∀ target u, s.effect env content ≠ .ok (.enter target u)

end Stage

/-- One step of a pass: it carries out a line, or it enters the text that the line includes, or it
leaves a text that has come to its end. -/
inductive Step (env : Environment) (s : Stage) : Stage → Prop
  | line {content : Text} {after : Machine} (stays : s.StaysAt env content)
    (goes : s.result env content = (.ok .next, after)) : Step env s (s.next after)
  | enter {content : Text} {target : Path} {u : Text} (found : s.reading.content? = some content)
    (effect : s.effect env content = .ok (.enter target u)) : Step env s (s.entered target u)
  | leave {outer : Reading} {further : List Reading} (finished : s.reading.content? = none)
    (closed : s.machine.state.blocks.unclosed? s.reading.depth = none)
    (around : s.around = outer :: further) : Step env s ⟨outer.next, further, s.machine⟩

/-- A row of steps leads from one stage to the other. -/
abbrev Reaches (env : Environment) : Stage → Stage → Prop := Relation.ReflTransGen (Step env)

/-- The pass fails here: at a line, or at the end of a text with an open block. -/
inductive Fails (env : Environment) (s : Stage) (d : Diagnostic) : Prop
  | line {content : Text} (stays : s.StaysAt env content)
    (fails : (s.result env content).1 = .error d)
  | unclosed (finished : s.reading.content? = none)
    (fails : (checkClosed s.chain s.reading.file s.reading.depth s.machine).1 = .error d)

/-- The pass is told to stop by the next line. -/
def Stops (env : Environment) (s : Stage) : Prop :=
  ∃ content, s.StaysAt env content ∧ (s.result env content).1 = .ok .stop

/-- The pass ends well here: it is told to stop, or the first text has come to its end. -/
def Ends (env : Environment) (s : Stage) : Prop :=
  Stops env s ∨ s.reading.content? = none ∧ s.around = [] ∧
    s.machine.state.blocks.unclosed? s.reading.depth = none

/-- From every stage there is at most one step. -/
theorem Step.unique {env : Environment} {s a b : Stage} (ha : Step env s a) (hb : Step env s b) :
    a = b := by
  cases ha with
  | line stays goes =>
    cases hb with
    | line stays' goes' =>
      obtain rfl := Option.some.inj (stays.found.symm.trans stays'.found)
      rw [(Prod.mk.inj (goes.symm.trans goes')).2]
    | enter found' effect' =>
      obtain rfl := Option.some.inj (stays.found.symm.trans found')
      exact absurd effect' (stays.own _ _)
    | leave finished' => nomatch stays.found.symm.trans finished'
  | enter found effect =>
    cases hb with
    | line stays' =>
      obtain rfl := Option.some.inj (found.symm.trans stays'.found)
      exact absurd effect (stays'.own _ _)
    | enter found' effect' =>
      obtain rfl := Option.some.inj (found.symm.trans found')
      obtain ⟨rfl, rfl⟩ := Effect.enter.inj (Except.ok.inj (effect.symm.trans effect'))
      rfl
    | leave finished' => nomatch found.symm.trans finished'
  | leave finished _ around =>
    cases hb with
    | line stays' => nomatch finished.symm.trans stays'.found
    | enter found' => nomatch finished.symm.trans found'
    | leave _ _ around' =>
      obtain ⟨rfl, rfl⟩ := List.cons.inj (around.symm.trans around')
      rfl

/-! ## A derivation is a row of steps -/

/-- Steps lead from the stage to where the result of a pass comes from: to the goal when the pass
goes on, and otherwise to the stage at which it stops or fails. -/
inductive Leads (env : Environment) (s : Stage) (goal : Machine → Stage) : Processed → Prop
  | next {after : Machine} (reaches : Reaches env s (goal after)) :
    Leads env s goal (.ok .next, after)
  | stop {last : Stage} {after : Machine} (reaches : Reaches env s last) (stops : Stops env last)
    (state : after.state = last.machine.state) (globals : after.globals = last.machine.globals) :
    Leads env s goal (.ok .stop, after)
  | fail {last : Stage} {d : Diagnostic} {after : Machine} (reaches : Reaches env s last)
    (fails : Fails env last d) (untouched : last.machine.Untouched after) :
    Leads env s goal (.error d, after)

namespace Leads

variable {env : Environment} {s s' : Stage} {goal goal' : Machine → Stage} {r : Processed}

theorem of_reaches (hreaches : Reaches env s s') (h : Leads env s' goal r) :
    Leads env s goal r := by
  cases h with
  | next reaches => exact .next (hreaches.trans reaches)
  | stop reaches stops state globals => exact .stop (hreaches.trans reaches) stops state globals
  | fail reaches fails untouched => exact .fail (hreaches.trans reaches) fails untouched

/-- Only a pass that goes on comes to the goal. -/
theorem mono (h : Leads env s goal r)
    (hgoal : ∀ after, r = (.ok .next, after) → Reaches env (goal after) (goal' after)) :
    Leads env s goal' r := by
  cases h with
  | next reaches => exact .next (reaches.trans (hgoal _ rfl))
  | stop reaches stops state globals => exact .stop reaches stops state globals
  | fail reaches fails untouched => exact .fail reaches fails untouched

end Leads

/-- A line that tells the pass to stop changes nothing itself. -/
theorem snd_of_processLine_stop {enter : List Position → Path → Text → Machine → Processed}
    {env : Environment} {chain : List Position} {here : Position} {content : Text}
    {m after : Machine}
    (own : ∀ target u, lineEffect env chain here m content ≠ .ok (.enter target u))
    (h : processLine enter env chain here content m = (.ok .stop, after)) : after = m := by
  unfold processLine at h
  split at h
  next => nomatch h
  next => exact (Prod.mk.inj h).2.symm
  next target u heffect => exact absurd heffect (own target u)
  next =>
    dsimp only at h
    split at h <;> nomatch h
  next => nomatch h

section Courses

variable {env : Environment}

/-- A line that enters no file is a step, or the end of the pass. -/
theorem Stage.StaysAt.leads {s : Stage} {content : Text} (h : s.StaysAt env content) :
    Leads env s s.next (s.result env content) := by
  rcases hresult : s.result env content with ⟨d | _ | _, after⟩
  · exact .fail .refl (.line h (congrArg Prod.fst hresult)) (processLine_untouched h.own hresult)
  · exact .next (.single (.line h hresult))
  · obtain rfl : after = s.machine := snd_of_processLine_stop h.own hresult
    exact .stop .refl ⟨content, h, congrArg Prod.fst hresult⟩ rfl rfl

mutual

theorem TextEnds.leads {chain : List Position} {f : Path} {u : Text} {m : Machine} {r : Processed}
    (h : TextEnds env chain f u m r) (around : List Reading)
    (hchain : (around.map Reading.here).reverse = chain) :
    Leads env (.begun f u around m)
      (fun after => ⟨⟨f, u, (Text.lines u).length, m.state.blocks.depth⟩, around, after⟩) r :=
  match h with
  | .intro (r := (.ok .next, last)) lines => by
    have hlines := lines.leads (.begun f u around m) rfl hchain rfl rfl rfl
    rw [show (Stage.begun f u around m).reading.done = 0 from rfl, Nat.zero_add] at hlines
    cases hlines with
    | next reaches =>
      show Leads env _ _ (checkClosed chain f m.state.blocks.depth last)
      have hlast := snd_goOn_checkClosed (.ok .next, last) chain f m.state.blocks.depth
      rcases hclosed : checkClosed chain f m.state.blocks.depth last with ⟨d | flow, after⟩
      · obtain rfl : after = last := (congrArg Prod.snd hclosed).symm.trans hlast
        subst hchain
        refine .fail reaches (.unclosed ?_ (congrArg Prod.fst hclosed)) ⟨rfl, rfl, rfl, .inl rfl⟩
        exact List.getElem?_eq_none (Nat.le_refl _)
      · have hgoOn : goOn (.ok .next, last) (checkClosed chain f m.state.blocks.depth) =
          (.ok flow, after) := hclosed
        rw [← (goOn_checkClosed_eq_ok_iff.1 hgoOn).1]
        exact .next reaches
  | .intro (r := (.ok .stop, _)) lines =>
    (lines.leads (.begun f u around m) rfl hchain rfl rfl rfl).mono nofun
  | .intro (r := (.error _, _)) lines =>
    (lines.leads (.begun f u around m) rfl hchain rfl rfl rfl).mono nofun

theorem LinesEnd.leads {chain : List Position} {f : Path} {line : Nat} {contents : List Text}
    {m : Machine} {r : Processed} (h : LinesEnd env chain f line contents m r) (s : Stage)
    (hmachine : s.machine = m) (hchain : s.chain = chain) (hfile : s.reading.file = f)
    (hline : s.reading.done + 1 = line)
    (hcontents : (Text.lines s.reading.text).drop s.reading.done = contents) :
    Leads env s (fun after =>
      ⟨{ s.reading with done := s.reading.done + contents.length }, s.around, after⟩) r :=
  match h with
  | .nil => by
    subst hmachine
    exact .next .refl
  | .next first rest => by
    obtain ⟨hcontent, hrest⟩ := Reading.content?_of_drop hcontents
    have hfirst := first.leads s hmachine hchain (by rw [← hfile, ← hline]; rfl) hcontent
    cases hfirst with
    | next reaches =>
      rw [LinesEnd.length_cons_add]
      refine .of_reaches reaches ?_
      exact rest.leads (s.next _) rfl hchain hfile (congrArg (· + 1) hline) hrest
  | .stop first => by
    obtain ⟨hcontent, -⟩ := Reading.content?_of_drop hcontents
    have hfirst := first.leads s hmachine hchain (by rw [← hfile, ← hline]; rfl) hcontent
    cases hfirst with
    | stop reaches stops state globals => exact .stop reaches stops state globals
  | .fail first => by
    obtain ⟨hcontent, -⟩ := Reading.content?_of_drop hcontents
    exact (first.leads s hmachine hchain (by rw [← hfile, ← hline]; rfl) hcontent).mono nofun

theorem LineEnds.leads {chain : List Position} {here : Position} {content : Text} {m : Machine}
    {r : Processed} (h : LineEnds env chain here content m r) (s : Stage) (hmachine : s.machine = m)
    (hchain : s.chain = chain) (hhere : s.here = here)
    (hcontent : s.reading.content? = some content) : Leads env s s.next r :=
  match h with
  | .alone own => by
    subst hmachine hchain hhere
    exact Stage.StaysAt.leads ⟨hcontent, own⟩
  | .entering effect text => by
    have htext := text.leads (s.reading :: s.around) (by rw [s.chain_inside, hchain, hhere])
    subst hmachine hchain hhere
    refine .of_reaches (.single (.enter hcontent effect)) (htext.mono fun after hafter => ?_)
    subst hafter
    have hclosed := (textEnds_ok_iff.1 text).2 rfl
    exact .single (.leave (List.getElem?_eq_none (Nat.le_refl _)) hclosed rfl)

end

/-- **A pass is a row of steps.** From the start of the file steps lead to a stage at which the pass
ends: it fails there with the diagnostic that it gives, or it ends well there. The state of the file
and the variables of the run are at the end those of this stage. -/
theorem processFile_course (env : Environment) (settings : Settings) (file : Path) (t : Text)
    (m : Machine) :
    ∃ s, Reaches env (.start file t m) s ∧
      (∀ d, (processFile env settings file t m).1 = .error d → Fails env s d) ∧
      (∀ output, (processFile env settings file t m).1 = .ok output → Ends env s) ∧
      (processFile env settings file t m).2.state = s.machine.state ∧
      (processFile env settings file t m).2.globals = s.machine.globals := by
  have hends := textEnds_processFile env file t m
  have hleads : Leads env (.start file t m) _ _ := hends.leads [] rfl
  rw [processFile_eq]
  generalize processText env (includeBound env.files) [] file t m = r at hends hleads ⊢
  cases hleads with
  | next reaches =>
    refine ⟨_, reaches, (fun _ h => nomatch h), fun _ _ => .inr ⟨?_, rfl, ?_⟩, rfl, rfl⟩
    · exact List.getElem?_eq_none (Nat.le_refl _)
    · exact (textEnds_ok_iff.1 hends).2 rfl
  | stop reaches stops state globals =>
    exact ⟨_, reaches, (fun _ h => nomatch h), fun _ _ => .inl stops, state, globals⟩
  | fail reaches fails untouched =>
    refine ⟨_, reaches, fun d hd => ?_, (fun _ h => nomatch h), untouched.state, untouched.globals⟩
    obtain rfl := Except.error.inj hd
    exact fails

end Courses

end SourcePreprocessor
