/-!
# Results that are not failures

The library is written in `Except`: a step either gives a value or stops everything after it. The
proofs take such computations apart from the result backwards, and the equivalences here are all
they need for it. The first reads

> a chain ends in a value exactly when its first step gives a value and the rest ends from there.
-/

namespace SourcePreprocessor

variable {ε ε' α β : Type}

theorem ok_bind (a : α) (f : α → Except ε β) : Except.ok a >>= f = f a := rfl

theorem bind_eq_ok_iff {x : Except ε α} {f : α → Except ε β} {b : β} :
    x >>= f = .ok b ↔ ∃ a, x = .ok a ∧ f a = .ok b := by
  cases x with
  | error e => exact ⟨nofun, fun ⟨_, h, _⟩ => nomatch h⟩
  | ok a => exact ⟨fun h => ⟨a, rfl, h⟩, fun ⟨_, h, hf⟩ => (Except.ok.inj h) ▸ hf⟩

/-- A chain ends in a failure when one of its steps does. -/
theorem bind_eq_error_iff {x : Except ε α} {f : α → Except ε β} {e : ε} :
    x >>= f = .error e ↔ x = .error e ∨ ∃ a, x = .ok a ∧ f a = .error e := by
  cases x with
  | error e' =>
    refine ⟨fun h => .inl (congrArg _ (Except.error.inj h)), ?_⟩
    rintro (h | ⟨a, h, -⟩)
    · exact congrArg _ (Except.error.inj h)
    · nomatch h
  | ok a =>
    refine ⟨fun h => .inr ⟨a, rfl, h⟩, ?_⟩
    rintro (h | ⟨b, h, hf⟩)
    · nomatch h
    · exact Except.ok.inj h ▸ hf

/-- Two chains with the same first step are the same when they go on the same from every value that
it gives. -/
theorem bind_congr_of_ok {x : Except ε α} {f g : α → Except ε β} (h : ∀ a, x = .ok a → f a = g a) :
    x >>= f = x >>= g := by
  cases x with
  | error e => rfl
  | ok a => exact h a rfl

theorem map_eq_ok_iff {x : Except ε α} {f : α → β} {b : β} :
    x.map f = .ok b ↔ ∃ a, x = .ok a ∧ f a = b := by
  cases x with
  | error e => exact ⟨nofun, fun ⟨_, h, _⟩ => nomatch h⟩
  | ok a =>
    exact ⟨fun h => ⟨a, rfl, Except.ok.inj h⟩, fun ⟨_, h, hf⟩ => Except.ok.inj h ▸ hf ▸ rfl⟩

theorem map_eq_error_iff {x : Except ε α} {f : α → β} {e : ε} :
    x.map f = .error e ↔ x = .error e := by
  cases x with
  | error e' =>
    exact ⟨fun h => congrArg _ (Except.error.inj h), fun h => congrArg _ (Except.error.inj h)⟩
  | ok a => exact ⟨nofun, nofun⟩

theorem mapError_ok (f : ε → ε') (a : α) : (Except.ok a).mapError f = .ok a := rfl

theorem mapError_eq_ok_iff {x : Except ε α} {f : ε → ε'} {a : α} :
    x.mapError f = .ok a ↔ x = .ok a := by
  cases x with
  | error e => exact ⟨nofun, nofun⟩
  | ok a => exact ⟨fun h => congrArg _ (Except.ok.inj h), fun h => congrArg _ (Except.ok.inj h)⟩

theorem mapError_eq_error_iff {x : Except ε α} {f : ε → ε'} {e : ε'} :
    x.mapError f = .error e ↔ ∃ e', x = .error e' ∧ f e' = e := by
  cases x with
  | error e' =>
    exact ⟨fun h => ⟨e', rfl, Except.error.inj h⟩, fun ⟨_, h, hf⟩ => Except.error.inj h ▸ hf ▸ rfl⟩
  | ok a => exact ⟨nofun, fun ⟨_, h, _⟩ => nomatch h⟩

theorem map_mapError (f : ε → ε') (g : α → β) (x : Except ε α) :
    (x.mapError f).map g = (x.map g).mapError f := by
  cases x <;> rfl

theorem map_eq_bind (f : α → β) (x : Except ε α) : x.map f = x >>= fun a => .ok (f a) := by
  cases x <;> rfl

theorem map_bind {γ : Type} (g : β → γ) (x : Except ε α) (f : α → Except ε β) :
    (x >>= f).map g = x >>= fun a => (f a).map g := by
  cases x <;> rfl

theorem eq_ok_of_toOption {x : Except ε α} {a : α} (h : x.toOption = some a) : x = .ok a := by
  cases x with
  | error e => nomatch h
  | ok b => exact congrArg _ (Option.some.inj h)

theorem eq_ok_snd_of_toOption {r : Except ε α × β} {a : α} (h : r.1.toOption = some a) :
    r = (.ok a, r.2) := by
  obtain ⟨result, b⟩ := r
  rw [show result = .ok a from eq_ok_of_toOption h]

theorem exists_error_of_toOption {r : Except ε α × β} (h : r.1.toOption = none) :
    ∃ e b, r = (.error e, b) := by
  obtain ⟨_ | _, b⟩ := r
  · exact ⟨_, b, rfl⟩
  · nomatch h

end SourcePreprocessor
