import Mathlib
import Criteria.Attempt

/-!
# Attempts that succeed

An attempt in several steps succeeds only if each of its steps does, from the
state that the one before has reached.
-/

namespace Criteria.Attempt

variable {ε σ α β : Type} {s t : σ}

theorem exists_of_isOk {r : Except ε α} (h : r.isOk = true) : ∃ a, r = .ok a := by
  cases r with
  | error e => cases h
  | ok a => exact ⟨a, rfl⟩

theorem isOk_map (f : α → β) (r : Except ε α) : (r.map f).isOk = r.isOk := by
  cases r <;> rfl

theorem bind_ok {x : Attempt ε σ α} {f : α → Attempt ε σ β} {b : β}
    (h : (x >>= f).run s = (.ok b, t)) :
    ∃ a s₁, x.run s = (.ok a, s₁) ∧ (f a).run s₁ = (.ok b, t) := by
  rw [run_bind] at h
  rcases hx : x.run s with ⟨e | a, s₁⟩
  · rw [hx] at h
    cases h
  · rw [hx] at h
    exact ⟨a, s₁, rfl, h⟩

theorem pure_ok {a b : α} (h : (pure a : Attempt ε σ α).run s = (.ok b, t)) : b = a ∧ t = s := by
  rw [run_pure, Prod.mk.injEq, Except.ok.injEq] at h
  exact ⟨h.1.symm, h.2.symm⟩

theorem map_ofExcept (f : α → β) (r : Except ε α) :
    f <$> (ofExcept r : Attempt ε σ α) = ofExcept (f <$> r) := by
  cases r <;> rfl

/-- The outcome as a result, with which one can go on also after an error. -/
def outcome (x : Attempt ε σ α) : Attempt ε σ (Except ε α) :=
  ⟨fun s => (.ok (x.run s).1, (x.run s).2)⟩

@[simp] theorem run_outcome (x : Attempt ε σ α) (s : σ) :
    x.outcome.run s = (.ok (x.run s).1, (x.run s).2) := rfl

variable {f : α → Attempt ε σ β}

/-- The first result, and those of the rest. -/
theorem forEach_cons_ok {a : α} {rest : List α} {results : List β}
    (h : (forEach f (a :: rest)).run s = (.ok results, t)) :
    ∃ b bs s₁, (f a).run s = (.ok b, s₁) ∧ (forEach f rest).run s₁ = (.ok bs, t) ∧
      results = b :: bs := by
  obtain ⟨b, s₁, hfirst, h⟩ := bind_ok h
  obtain ⟨bs, s₂, hrest, h⟩ := bind_ok h
  obtain ⟨rfl, rfl⟩ := pure_ok h
  exact ⟨b, bs, s₁, hfirst, hrest, rfl⟩

theorem forEach_append (f : α → Attempt ε σ β) (l l' : List α) :
    forEach f (l ++ l') =
      forEach f l >>= fun bs => forEach f l' >>= fun bs' => pure (bs ++ bs') := by
  induction l with
  | nil => simp
  | cons a rest ih => simp [ih]

/-- Each of the list has its result among the results. -/
theorem exists_of_mem_forEach {l : List α} {results : List β}
    (h : (forEach f l).run s = (.ok results, t)) {a : α} (ha : a ∈ l) :
    ∃ b s₁ s₂, b ∈ results ∧ (f a).run s₁ = (.ok b, s₂) := by
  induction l generalizing results s with
  | nil => cases ha
  | cons first rest ih =>
    obtain ⟨b, bs, s₁, hfirst, hrest, rfl⟩ := forEach_cons_ok h
    rcases List.mem_cons.1 ha with rfl | ha
    · exact ⟨b, s, s₁, List.mem_cons_self, hfirst⟩
    · obtain ⟨b', s₂, s₃, hb', hf'⟩ := ih hrest ha
      exact ⟨b', s₂, s₃, List.mem_cons_of_mem b hb', hf'⟩

/-- Attempts along a list fail where one of them fails, behind others that succeed. -/
theorem exists_of_forEach_error {l : List α} {e : ε} (h : (forEach f l).run s = (.error e, t)) :
    ∃ before a after results s₁, l = before ++ a :: after ∧
      (forEach f before).run s = (.ok results, s₁) ∧ (f a).run s₁ = (.error e, t) := by
  induction l generalizing s with
  | nil => cases h
  | cons a rest ih =>
    rcases hfirst : (f a).run s with ⟨e' | b, s₁⟩
    · rw [forEach_cons, run_bind_of_error hfirst] at h
      cases h
      exact ⟨[], a, rest, [], s, rfl, rfl, hfirst⟩
    · rw [forEach_cons, run_bind_of_ok hfirst] at h
      rcases hrest : (forEach f rest).run s₁ with ⟨e' | bs, s₂⟩
      · rw [run_bind_of_error hrest] at h
        cases h
        obtain ⟨before, c, after, results, s₃, rfl, hbefore, hc⟩ := ih hrest
        refine ⟨a :: before, c, after, b :: results, s₃, rfl, ?_, hc⟩
        rw [forEach_cons, run_bind_of_ok hfirst, run_bind_of_ok hbefore, run_pure]
      · rw [run_bind_of_ok hrest] at h
        cases h

/-- The results along a list up to the first error, each from the state that the one before has
reached. -/
def results (f : α → Attempt ε σ β) : List α → σ → List β
  | [], _ => []
  | a :: rest, s =>
    match (f a).run s with
    | (.error _, _) => []
    | (.ok b, s) => b :: results f rest s

theorem results_cons_of_ok {a : α} {b : β} (h : (f a).run s = (.ok b, t)) (rest : List α) :
    results f (a :: rest) s = b :: results f rest t := by
  simp only [results, h]

theorem results_cons_of_error {a : α} {e : ε} (h : (f a).run s = (.error e, t)) (rest : List α) :
    results f (a :: rest) s = [] := by
  simp only [results, h]

theorem results_congr_of_mem {g : α → Attempt ε σ β} {l : List α} (h : ∀ a ∈ l, f a = g a) (s : σ) :
    results f l s = results g l s := by
  induction l generalizing s with
  | nil => rfl
  | cons a rest ih =>
    rw [List.forall_mem_cons] at h
    rcases hrun : (f a).run s with ⟨e | b, t⟩
    · rw [results_cons_of_error hrun, results_cons_of_error (h.1 ▸ hrun)]
    · rw [results_cons_of_ok hrun, results_cons_of_ok (h.1 ▸ hrun), ih h.2]

/-! ## Parts of the state that stay as they are -/

/-- The attempt leaves a part of the state alone, also when it fails. -/
def Keeps {τ : Type} (part : σ → τ) (x : Attempt ε σ α) : Prop := ∀ s, part (x.run s).2 = part s

section Keeps

variable {τ : Type} {part : σ → τ}

theorem keeps_pure (a : α) : (pure a : Attempt ε σ α).Keeps part := fun _ => rfl

theorem Keeps.bind {x : Attempt ε σ α} (hx : x.Keeps part) (hf : ∀ a, (f a).Keeps part) :
    (x >>= f).Keeps part := by
  intro s
  have hfirst := hx s
  rw [run_bind]
  rcases hrun : x.run s with ⟨e | a, s₁⟩
  · rwa [hrun] at hfirst
  · rw [hrun] at hfirst
    exact (hf a s₁).trans hfirst

theorem Keeps.forEach (hf : ∀ a, (f a).Keeps part) (l : List α) :
    (Attempt.forEach f l).Keeps part := by
  induction l with
  | nil => exact keeps_pure []
  | cons a rest ih => exact (hf a).bind fun b => ih.bind fun bs => keeps_pure (b :: bs)

theorem keeps_current : (current : Attempt ε σ σ).Keeps part := fun _ => rfl

theorem keeps_fail (e : ε) : (fail e : Attempt ε σ α).Keeps part := fun _ => rfl

theorem keeps_ofExcept (r : Except ε α) : (ofExcept r : Attempt ε σ α).Keeps part := fun _ => rfl

end Keeps

/-! ## Parts of the state that are looked at -/

/-- The attempt goes by a view of the state: from states that look the same it has the same outcome
and reaches states that look the same, also when it fails. -/
def Sees {τ : Type} (view : σ → τ) (x : Attempt ε σ α) : Prop :=
  ∀ s t, view s = view t → (x.run s).1 = (x.run t).1 ∧ view (x.run s).2 = view (x.run t).2

section Sees

variable {τ : Type} {view : σ → τ}

/-- Everything goes by the whole state. -/
theorem sees_id (x : Attempt ε σ α) : x.Sees id := by
  rintro s _ rfl
  exact ⟨rfl, rfl⟩

theorem sees_pure (a : α) : (pure a : Attempt ε σ α).Sees view := fun _ _ h => ⟨rfl, h⟩

theorem sees_fail (e : ε) : (fail e : Attempt ε σ α).Sees view := fun _ _ h => ⟨rfl, h⟩

theorem sees_ofExcept (r : Except ε α) : (ofExcept r : Attempt ε σ α).Sees view :=
  fun _ _ h => ⟨rfl, h⟩

theorem Sees.bind {x : Attempt ε σ α} (hx : x.Sees view) (hf : ∀ a, (f a).Sees view) :
    (x >>= f).Sees view := by
  intro s t h
  obtain ⟨hresult, hview⟩ := hx s t h
  rcases hs : x.run s with ⟨r, s₁⟩
  rcases ht : x.run t with ⟨r', t₁⟩
  rw [hs, ht] at hresult hview
  cases hresult
  cases r with
  | error e =>
    rw [run_bind_of_error hs, run_bind_of_error ht]
    exact ⟨rfl, hview⟩
  | ok a =>
    rw [run_bind_of_ok hs, run_bind_of_ok ht]
    exact hf a s₁ t₁ hview

/-- Looking at the state is allowed if what follows is the same for states that look the same. -/
theorem Sees.current_bind {f : σ → Attempt ε σ β} (hf : ∀ s, (f s).Sees view)
    (heq : ∀ s t, view s = view t → f s = f t) : (current >>= f).Sees view := by
  intro s t h
  have ht : (current >>= f).run t = (f s).run t := by
    rw [heq s t h]
    rfl
  rw [ht]
  exact hf s s t h

theorem Sees.forEach_of_mem {l : List α} (hf : ∀ a ∈ l, (f a).Sees view) :
    (Attempt.forEach f l).Sees view := by
  induction l with
  | nil => exact sees_pure []
  | cons a rest ih =>
    rw [List.forall_mem_cons] at hf
    exact hf.1.bind fun b => (ih hf.2).bind fun bs => sees_pure (b :: bs)

theorem Sees.forEach (hf : ∀ a, (f a).Sees view) (l : List α) :
    (Attempt.forEach f l).Sees view :=
  Sees.forEach_of_mem fun a _ => hf a

theorem Sees.outcome {x : Attempt ε σ α} (hx : x.Sees view) : x.outcome.Sees view := by
  intro s t h
  obtain ⟨hresult, hview⟩ := hx s t h
  exact ⟨congrArg Except.ok hresult, hview⟩

/-- From states that look the same, the results are the same. -/
theorem results_congr {l : List α} (hf : ∀ a ∈ l, (f a).Sees view) (h : view s = view t) :
    results f l s = results f l t := by
  induction l generalizing s t with
  | nil => rfl
  | cons a rest ih =>
    rw [List.forall_mem_cons] at hf
    obtain ⟨hresult, hview⟩ := hf.1 s t h
    rcases hs : (f a).run s with ⟨r, s₁⟩
    rcases ht : (f a).run t with ⟨r', t₁⟩
    rw [hs, ht] at hresult hview
    cases hresult
    cases r with
    | error e => rw [results_cons_of_error hs, results_cons_of_error ht]
    | ok b => rw [results_cons_of_ok hs, results_cons_of_ok ht, ih hf.2 hview]

end Sees

/-! ## Attempts side by side -/

section Alike

variable {τ γ δ : Type} {view : σ → τ} {R : α → β → Prop} {Q : γ → δ → Prop}

/-- Both outcomes are one error, or both are results, and these are related. -/
inductive Matches (R : α → β → Prop) : Except ε α → Except ε β → Prop
  | ok {a : α} {b : β} (h : R a b) : Matches R (.ok a) (.ok b)
  | error (e : ε) : Matches R (.error e) (.error e)

/-- From states that look the same, the attempts have outcomes that match and reach states that look
the same. -/
def Alike (view : σ → τ) (R : α → β → Prop) (x : Attempt ε σ α) (y : Attempt ε σ β) : Prop :=
  ∀ s t, view s = view t → Matches R (x.run s).1 (y.run t).1 ∧ view (x.run s).2 = view (y.run t).2

theorem alike_pure {a : α} {b : β} (h : R a b) :
    Alike view R (pure a : Attempt ε σ α) (pure b : Attempt ε σ β) :=
  fun _ _ hview => ⟨.ok h, hview⟩

theorem Sees.alike {x : Attempt ε σ α} (hx : x.Sees view) : Alike view (· = ·) x x := by
  intro s t h
  obtain ⟨hresult, hview⟩ := hx s t h
  rw [← hresult]
  refine ⟨?_, hview⟩
  cases (x.run s).1 with
  | error e => exact .error e
  | ok a => exact .ok rfl

theorem Alike.bind {x : Attempt ε σ α} {y : Attempt ε σ β} {f : α → Attempt ε σ γ}
    {g : β → Attempt ε σ δ} (hx : Alike view R x y) (hf : ∀ a b, R a b → Alike view Q (f a) (g b)) :
    Alike view Q (x >>= f) (y >>= g) := by
  intro s t h
  obtain ⟨hresult, hview⟩ := hx s t h
  rcases hs : x.run s with ⟨r, s₁⟩
  rcases ht : y.run t with ⟨r', t₁⟩
  rw [hs, ht] at hresult hview
  cases hresult with
  | error e =>
    rw [run_bind_of_error hs, run_bind_of_error ht]
    exact ⟨.error e, hview⟩
  | @ok a b hab =>
    rw [run_bind_of_ok hs, run_bind_of_ok ht]
    exact hf a b hab s₁ t₁ hview

/-- An attempt that both begin with. -/
theorem Sees.bind_alike {x : Attempt ε σ α} {f : α → Attempt ε σ γ} {g : α → Attempt ε σ δ}
    (hx : x.Sees view) (hf : ∀ a, Alike view Q (f a) (g a)) :
    Alike view Q (x >>= f) (x >>= g) :=
  hx.alike.bind fun a _ heq => heq ▸ hf a

end Alike

end Criteria.Attempt
