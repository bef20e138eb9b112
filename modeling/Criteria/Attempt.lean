/-!
# Attempts

An attempt reads and changes a state and ends with a result or with an error.
The state it reached is kept in both cases: what happened before a failure has
happened.

Every combinator comes with one `run_` equation, and the equations are all that
is needed to follow an attempt step by step.
-/

namespace Criteria

/-- A computation that threads a state `σ` and may stop with an error `ε`. -/
@[ext] structure Attempt (ε σ α : Type) where
  /-- The outcome from a given state, with the state that was reached. -/
  run : σ → Except ε α × σ

namespace Attempt

variable {ε σ τ α β : Type}

/-- Ends with `a` at once. -/
protected def pure (a : α) : Attempt ε σ α := ⟨fun s => (.ok a, s)⟩

/-- Continues after a result; an error ends the whole. -/
protected def bind (x : Attempt ε σ α) (f : α → Attempt ε σ β) : Attempt ε σ β :=
  ⟨fun s =>
    match x.run s with
    | (.ok a, s) => (f a).run s
    | (.error e, s) => (.error e, s)⟩

instance : Monad (Attempt ε σ) where
  pure := Attempt.pure
  bind := Attempt.bind

@[simp] theorem run_pure (a : α) (s : σ) : (pure a : Attempt ε σ α).run s = (.ok a, s) := rfl

theorem run_bind (x : Attempt ε σ α) (f : α → Attempt ε σ β) (s : σ) :
    (x >>= f).run s =
      match x.run s with
      | (.ok a, s) => (f a).run s
      | (.error e, s) => (.error e, s) := rfl

theorem run_map (f : α → β) (x : Attempt ε σ α) (s : σ) :
    (f <$> x).run s =
      match x.run s with
      | (.ok a, s) => (.ok (f a), s)
      | (.error e, s) => (.error e, s) := rfl

/-- A bind whose first part succeeds continues from the state that part reached. -/
theorem run_bind_of_ok {x : Attempt ε σ α} {a : α} {s t : σ} (h : x.run s = (.ok a, t))
    (f : α → Attempt ε σ β) : (x >>= f).run s = (f a).run t := by
  simp [run_bind, h]

/-- A bind whose first part fails is that failure. -/
theorem run_bind_of_error {x : Attempt ε σ α} {e : ε} {s t : σ} (h : x.run s = (.error e, t))
    (f : α → Attempt ε σ β) : (x >>= f).run s = (.error e, t) := by
  simp [run_bind, h]

instance : LawfulMonad (Attempt ε σ) :=
  LawfulMonad.mk' _
    (fun x => by
      ext1
      funext s
      rw [run_map]
      rcases x.run s with ⟨_ | _, _⟩ <;> rfl)
    (fun _ _ => rfl)
    (fun x f g => by
      ext1
      funext s
      simp only [run_bind]
      rcases x.run s with ⟨_ | _, _⟩ <;> rfl)

/-- Stops with an error. -/
def fail (e : ε) : Attempt ε σ α := ⟨fun s => (.error e, s)⟩

@[simp] theorem run_fail (e : ε) (s : σ) : (fail e : Attempt ε σ α).run s = (.error e, s) := rfl

/-- The state as it is. -/
def current : Attempt ε σ σ := ⟨fun s => (.ok s, s)⟩

@[simp] theorem run_current (s : σ) : (current : Attempt ε σ σ).run s = (.ok s, s) := rfl

/-- Changes the state. -/
def change (f : σ → σ) : Attempt ε σ Unit := ⟨fun s => (.ok (), f s)⟩

@[simp] theorem run_change (f : σ → σ) (s : σ) :
    (change f : Attempt ε σ Unit).run s = (.ok (), f s) := rfl

/-- An outcome that is already known. -/
def ofExcept (r : Except ε α) : Attempt ε σ α := ⟨fun s => (r, s)⟩

@[simp] theorem run_ofExcept (r : Except ε α) (s : σ) :
    (ofExcept r : Attempt ε σ α).run s = (r, s) := rfl

/-- Works on a part of the state: `get` shows the part and `put` writes it back, also after an
error. -/
def onPart (get : σ → τ) (put : τ → σ → σ) (x : Attempt ε τ α) : Attempt ε σ α :=
  ⟨fun s => let (r, t) := x.run (get s); (r, put t s)⟩

@[simp] theorem run_onPart (get : σ → τ) (put : τ → σ → σ) (x : Attempt ε τ α) (s : σ) :
    (onPart get put x).run s = ((x.run (get s)).1, put (x.run (get s)).2 s) := rfl

/-- Changes the state once more if the attempt fails. -/
def onError (x : Attempt ε σ α) (f : σ → σ) : Attempt ε σ α :=
  ⟨fun s =>
    match x.run s with
    | (.ok a, s) => (.ok a, s)
    | (.error e, s) => (.error e, f s)⟩

theorem run_onError (x : Attempt ε σ α) (f : σ → σ) (s : σ) :
    (x.onError f).run s =
      match x.run s with
      | (.ok a, s) => (.ok a, s)
      | (.error e, s) => (.error e, f s) := rfl

/-- The results of `f` along a list, in order, up to the first error. -/
def forEach (f : α → Attempt ε σ β) : List α → Attempt ε σ (List β)
  | [] => pure []
  | a :: rest => do
    let b ← f a
    let bs ← forEach f rest
    pure (b :: bs)

@[simp] theorem forEach_nil (f : α → Attempt ε σ β) : forEach f [] = pure [] := rfl

@[simp] theorem forEach_cons (f : α → Attempt ε σ β) (a : α) (rest : List α) :
    forEach f (a :: rest) = f a >>= fun b => forEach f rest >>= fun bs => pure (b :: bs) := rfl

end Attempt

end Criteria
