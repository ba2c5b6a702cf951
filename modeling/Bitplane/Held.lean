/-! # Steps on a state that is held

A step reads and writes a state that it holds, and may fail on the way. What it has written by then
stays written, so that it takes a proof to show that a step that fails changes nothing.

* `runOn`: the answer of a step, and the state it leaves.
* `left`: the state that a step leaves if it succeeds.
* `KeepsOnError`: the step changes nothing if it fails. -/

namespace Bitplane

/-- **A step on a state that is held.** -/
abbrev Held (ε σ : Type) := ExceptT ε (StateM σ)

namespace Held

variable {ε σ α β : Type} {s : σ}

/-- The answer of a step, and the state it leaves. -/
def runOn (x : Held ε σ α) (s : σ) : Except ε α × σ := StateT.run (ExceptT.run x) s

/-- A step that leaves the state alone. -/
def aside (x : Except ε α) : Held ε σ α := ExceptT.mk (pure x)

/-- The state that a step leaves if it succeeds. -/
def left (x : Held ε σ Unit) (s : σ) : Except ε σ :=
  let out := x.runOn s
  out.1.map fun _ => out.2

/-- **The step leaves the state as it was if it fails.** -/
def KeepsOnError (x : Held ε σ α) : Prop := ∀ s e, (x.runOn s).1 = .error e → (x.runOn s).2 = s

theorem runOn_get_bind (f : σ → Held ε σ α) (s : σ) :
    (get >>= f : Held ε σ α).runOn s = (f s).runOn s := rfl

theorem runOn_modify_bind (g : σ → σ) (f : PUnit → Held ε σ α) (s : σ) :
    (modify g >>= f : Held ε σ α).runOn s = (f ⟨⟩).runOn (g s) := rfl

theorem runOn_adapt {ε' : Type} (f : ε → ε') (x : Held ε σ α) (s : σ) :
    Held.runOn (x.adapt f) s = ((x.runOn s).1.mapError f, (x.runOn s).2) := by
  unfold runOn
  rw [ExceptT.run_adapt]
  rfl

theorem runOn_of_left_ok {x : Held ε σ Unit} {s' : σ} (h : x.left s = .ok s') :
    (x.runOn s).2 = s' := by
  unfold left at h
  cases hx : (x.runOn s).1 with
  | error e => simp [hx, Except.map] at h
  | ok a => simpa [hx, Except.map] using h

theorem runOn_of_left_error {x : Held ε σ Unit} {e : ε} (h : x.left s = .error e) :
    (x.runOn s).1 = .error e := by
  unfold left at h
  cases hx : (x.runOn s).1 with
  | error e' => simpa [hx, Except.map] using h
  | ok a => simp [hx, Except.map] at h

theorem left_adapt {ε' : Type} (f : ε → ε') (x : Held ε σ Unit) (s : σ) :
    Held.left (x.adapt f) s = (x.left s).mapError f := by
  unfold left
  rw [runOn_adapt]
  obtain ⟨answer, s'⟩ := x.runOn s
  cases answer <;> rfl

theorem runOn_aside_bind (x : Except ε α) (f : α → Held ε σ β) (s : σ) :
    (aside x >>= f).runOn s = match x with
      | .ok a => (f a).runOn s
      | .error e => (.error e, s) := by cases x <;> rfl

theorem exists_of_runOn_aside_bind {x : Except ε α} {f : α → Held ε σ β} {b : β}
    (h : ((aside x >>= f).runOn s).1 = .ok b) : ∃ a, x = .ok a ∧ ((f a).runOn s).1 = .ok b := by
  rw [runOn_aside_bind] at h
  cases x with
  | error e => cases h
  | ok a => exact ⟨a, rfl, h⟩

/-! ## Steps that change nothing if they fail -/

/-- A step that writes last may ask for things before. -/
theorem KeepsOnError.aside_bind {x : Except ε α} {f : α → Held ε σ β}
    (hf : ∀ a, (f a).KeepsOnError) :
    (aside x >>= f).KeepsOnError := by
  intro s e he
  rw [runOn_aside_bind] at he ⊢
  cases x with
  | error e' => rfl
  | ok a => exact hf a s e he

theorem KeepsOnError.get_bind {f : σ → Held ε σ α} (hf : ∀ s, (f s).KeepsOnError) :
    (get >>= f : Held ε σ α).KeepsOnError := fun s => hf s s

theorem KeepsOnError.throw (e : ε) : (throw e : Held ε σ α).KeepsOnError := fun _ _ _ => rfl

theorem KeepsOnError.set (s : σ) : (set s : Held ε σ PUnit).KeepsOnError := fun _ _ h => nomatch h

theorem KeepsOnError.adapt {ε' : Type} {x : Held ε σ α} (hx : x.KeepsOnError) (f : ε → ε') :
    Held.KeepsOnError (x.adapt f) := by
  intro s e he
  rw [runOn_adapt] at he ⊢
  cases hxs : (x.runOn s).1 with
  | error e' => exact hx s e' hxs
  | ok a =>
    rw [hxs] at he
    cases he

end Held

end Bitplane
