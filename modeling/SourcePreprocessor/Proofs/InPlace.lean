import SourcePreprocessor.Proofs.Except

/-!
# Steps in place

The passes decide first what a line does to the state and carry it out afterwards, so that a failure
cannot leave anything half done. Steps in place are the other way to say the same: they read and
write one state as they go along, and what they wrote before a failure stays written. Whether such
steps leave the state alone when they fail is then a question about their order, and it is answered
by comparing them with what is decided first.

The one rule about them is that of a chain (`exec_bind`): it goes on from the state that its first
step leaves, or ends with that state when the step fails.
-/

namespace SourcePreprocessor

/-- Steps on a state in place. They give a value or fail, and leave a state either way. -/
abbrev InPlace (σ ε : Type) := ExceptT ε (StateM σ)

namespace InPlace

variable {σ τ ε ε' α β : Type}

/-- What the steps give, and the state that they leave. -/
def exec (steps : InPlace σ ε α) (s : σ) : Except ε α × σ := steps.run.run s

/-- A result that was found without the state. -/
def ofExcept (result : Except ε α) : InPlace σ ε α := ExceptT.mk (pure result)

/-- Steps on a part of a state, as steps on the whole of it. -/
def onPart (part : σ → τ) (replace : τ → σ → σ) (wrap : ε → ε') (steps : InPlace τ ε α) :
    InPlace σ ε' α :=
  ExceptT.mk fun s =>
    ((steps.exec (part s)).1.mapError wrap, replace (steps.exec (part s)).2 s)

theorem exec_modify (f : σ → σ) (s : σ) :
    (modify f : InPlace σ ε Unit).exec s = (.ok (), f s) := rfl

/-- A chain goes on from the state that its first step leaves, unless that step fails. -/
theorem exec_bind (step : InPlace σ ε α) (next : α → InPlace σ ε β) (s : σ) :
    (step >>= next).exec s = match step.exec s with
      | (.ok a, s) => (next a).exec s
      | (.error e, s) => (.error e, s) := by
  show (ExceptT.bindCont next (step.exec s).1 : StateM σ _) (step.exec s).2 = _
  match step.exec s with
  | (.ok a, after) => rfl
  | (.error e, after) => rfl

variable {step : InPlace σ ε α} {next : α → InPlace σ ε β} {s s' : σ} {a : α} {e : ε}

theorem exec_bind_of_ok (h : step.exec s = (.ok a, s')) :
    (step >>= next).exec s = (next a).exec s' := by
  rw [exec_bind, h]

theorem exec_bind_of_error (h : step.exec s = (.error e, s')) :
    (step >>= next).exec s = (.error e, s') := by
  rw [exec_bind, h]

end InPlace

end SourcePreprocessor
