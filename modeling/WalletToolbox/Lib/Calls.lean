import Mathlib.Tactic.Common

/-! # Calls that keep what they did

A call works on a state and ends with a value or an error; the state it leaves is there in both
cases.
`Leaves p Q E s` holds when `p` from `s` ends with a value and a state that satisfy `Q`, or with an
error and a state that satisfies `E`. -/

namespace WalletToolbox.Lib.Calls

variable {σ ε α β γ : Type}

/-- The outcome of a call and the state it leaves. -/
def outcome (p : ExceptT ε (StateM σ) α) (s : σ) : Except ε α × σ :=
  (p.run).run s

def Leaves (p : ExceptT ε (StateM σ) α) (Q : α → σ → Prop) (E : σ → Prop) (s : σ) : Prop :=
  match outcome p s with
  | (.ok a, s') => Q a s'
  | (.error _, s') => E s'

/-- A postcondition read off a call that succeeded. -/
theorem Leaves.ok {p : ExceptT ε (StateM σ) α} {Q : α → σ → Prop} {E : σ → Prop} {s s' : σ} {a : α}
    (h : Leaves p Q E s) (hrun : outcome p s = (.ok a, s')) : Q a s' := by
  simpa only [Leaves, hrun] using h

theorem Leaves.of_isOk {p : ExceptT ε (StateM σ) α} {I : σ → Prop} {E : σ → Prop} {s : σ}
    (h : Leaves p (fun _ => I) E s) (hok : (outcome p s).1.isOk = true) : I (outcome p s).2 := by
  rcases hp : outcome p s with ⟨_ | a, s'⟩
  · rw [hp] at hok
    cases hok
  · exact h.ok hp

/-- A call that cannot fail ends with its postcondition. -/
theorem Leaves.total {p : ExceptT ε (StateM σ) α} {Q : α → σ → Prop} {s : σ}
    (h : Leaves p Q (fun _ => False) s) : ∃ a s', outcome p s = (.ok a, s') ∧ Q a s' := by
  unfold Leaves at h
  rcases hp : outcome p s with ⟨_ | a, s'⟩
  · rw [hp] at h
    exact h.elim
  · rw [hp] at h
    exact ⟨a, s', rfl, h⟩

theorem Leaves.mono {p : ExceptT ε (StateM σ) α} {Q Q' : α → σ → Prop} {E E' : σ → Prop} {s : σ}
    (h : Leaves p Q E s) (hQ : ∀ a s', Q a s' → Q' a s') (hE : ∀ s', E s' → E' s') :
    Leaves p Q' E' s := by
  unfold Leaves at h ⊢
  rcases hp : outcome p s with ⟨_ | a, s'⟩
  · rw [hp] at h
    exact hE s' h
  · rw [hp] at h
    exact hQ a s' h

/-- Two postconditions that agree on success and failure speak about the state alone. -/
theorem leaves_state {p : ExceptT ε (StateM σ) α} {I : σ → Prop} {s : σ} :
    Leaves p (fun _ => I) I s ↔ I (outcome p s).2 := by
  unfold Leaves
  rcases outcome p s with ⟨_ | a, s'⟩ <;> exact Iff.rfl

variable {Q : α → σ → Prop} {E : σ → Prop} {s : σ}

@[simp] theorem leaves_pure {a : α} : Leaves (pure a : ExceptT ε (StateM σ) α) Q E s ↔ Q a s := Iff.rfl

@[simp] theorem leaves_throw {e : ε} :
    Leaves (throw e : ExceptT ε (StateM σ) α) Q E s ↔ E s := Iff.rfl

@[simp] theorem leaves_get {Q : σ → σ → Prop} :
    Leaves (get : ExceptT ε (StateM σ) σ) Q E s ↔ Q s s := Iff.rfl

@[simp] theorem leaves_modify {f : σ → σ} {Q : PUnit → σ → Prop} :
    Leaves (modify f : ExceptT ε (StateM σ) PUnit) Q E s ↔ Q ⟨⟩ (f s) := Iff.rfl

theorem outcome_bind (p : ExceptT ε (StateM σ) α) (f : α → ExceptT ε (StateM σ) β) (s : σ) :
    outcome (p >>= f) s =
      match outcome p s with
      | (.ok a, s') => outcome (f a) s'
      | (.error e, s') => (.error e, s') := by
  show (match (p s : Except ε α × σ) with
    | (r, s') => (match r with | .ok a => f a | .error e => (pure (.error e) : StateM σ (Except ε β))) s') = _
  unfold outcome
  show _ = match (p s : Except ε α × σ) with
    | (.ok a, s') => (f a s' : Except ε β × σ)
    | (.error e, s') => (.error e, s')
  rcases (p s : Except ε α × σ) with ⟨_ | a, s'⟩ <;> rfl

@[simp] theorem leaves_bind {p : ExceptT ε (StateM σ) α} {f : α → ExceptT ε (StateM σ) β}
    {Q : β → σ → Prop} :
    Leaves (p >>= f) Q E s ↔ Leaves p (fun a s' => Leaves (f a) Q E s') E s := by
  unfold Leaves
  rw [outcome_bind]
  rcases outcome p s with ⟨_ | a, s'⟩ <;> exact Iff.rfl

theorem leaves_tryCatch {p : ExceptT ε (StateM σ) α} {f : ε → ExceptT ε (StateM σ) α}
    (h : Leaves p Q (fun s' => ∀ e, Leaves (f e) Q E s') s) : Leaves (tryCatch p f) Q E s := by
  have hcatch : outcome (tryCatch p f) s =
      match outcome p s with
      | (.ok a, s') => (.ok a, s')
      | (.error e, s') => outcome (f e) s' := by
    show (match (p s : Except ε α × σ) with
      | (r, s') => (match r with | .ok a => (pure (.ok a) : StateM σ (Except ε α)) | .error e => f e) s') = _
    unfold outcome
    show _ = match (p s : Except ε α × σ) with
      | (.ok a, s') => ((.ok a, s') : Except ε α × σ)
      | (.error e, s') => (f e s' : Except ε α × σ)
    rcases (p s : Except ε α × σ) with ⟨_ | a, s'⟩ <;> rfl
  unfold Leaves at h ⊢
  rw [hcatch]
  rcases hp : outcome p s with ⟨e | a, s'⟩
  · rw [hp] at h
    exact h e
  · rw [hp] at h
    exact h

/-- An invariant that each turn of a loop keeps is kept by the loop. -/
theorem leaves_forM {xs : List γ} {f : γ → ExceptT ε (StateM σ) PUnit} {I E : σ → Prop} {s : σ}
    (hstep : ∀ x ∈ xs, ∀ s, I s → Leaves (f x) (fun _ => I) E s) (hs : I s) :
    Leaves (forM xs f) (fun _ => I) E s := by
  induction xs generalizing s with
  | nil => exact hs
  | cons x xs ih =>
    rw [List.forM_cons, leaves_bind]
    refine (hstep x (by simp) s hs).mono (fun _ s' hs' => ?_) fun _ h => h
    exact ih (fun y hy => hstep y (by simp [hy])) hs'

/-- A loop that collects results: each turn keeps the invariant and its result satisfies `R`. -/
theorem leaves_mapM {xs : List γ} {f : γ → ExceptT ε (StateM σ) α} {I E : σ → Prop}
    {R : γ → α → Prop} {s : σ}
    (hstep : ∀ x ∈ xs, ∀ s, I s → Leaves (f x) (fun a s' => I s' ∧ R x a) E s) (hs : I s) :
    Leaves (xs.mapM f) (fun rs s' => I s' ∧ List.Forall₂ R xs rs) E s := by
  induction xs generalizing s with
  | nil =>
    rw [List.mapM_nil, leaves_pure]
    exact ⟨hs, .nil⟩
  | cons x xs ih =>
    rw [List.mapM_cons, leaves_bind]
    refine (hstep x (by simp) s hs).mono (fun a s' hs' => ?_) fun _ h => h
    rw [leaves_bind]
    refine (ih (fun y hy => hstep y (by simp [hy])) hs'.1).mono (fun rs s'' hrs => ?_) fun _ h => h
    exact ⟨hrs.1, .cons hs'.2 hrs.2⟩

end WalletToolbox.Lib.Calls
