import WalletToolbox.Lib.Prog

/-! # Pre- and postconditions of programs

`wp p Q E s` holds when `p`, alone on the store `s`, ends with a value and a store that satisfy
`Q`, or with an error and a store that satisfies `E`.
There is one rule for each way to build a program, and the invariant rules for loops.
Nothing here depends on what the store or the statements are. -/

namespace WalletToolbox.Lib.Prog

variable {σ ω ε α β γ : Type} {ap : ω → σ → Except ε (Nat × σ)}

/-- The weakest precondition of a program: `Q` on success and `E` on failure. -/
def wp (ap : ω → σ → Except ε (Nat × σ)) (p : Prog σ ω ε α) (Q : α → σ → Prop) (E : σ → Prop)
    (s : σ) : Prop :=
  match p.run ap s with
  | (.ok a, s') => Q a s'
  | (.error _, s') => E s'

/-- A precondition read off a run that succeeded. -/
theorem wp_ok {p : Prog σ ω ε α} {Q : α → σ → Prop} {E : σ → Prop} {s s' : σ} {a : α}
    (h : wp ap p Q E s) (hrun : p.run ap s = (.ok a, s')) : Q a s' := by
  simpa only [wp, hrun] using h

theorem wp_error {p : Prog σ ω ε α} {Q : α → σ → Prop} {E : σ → Prop} {s s' : σ} {e : ε}
    (h : wp ap p Q E s) (hrun : p.run ap s = (.error e, s')) : E s' := by
  simpa only [wp, hrun] using h

/-- A precondition shown for the run itself. -/
theorem wp_of_run {p : Prog σ ω ε α} {Q : α → σ → Prop} {E : σ → Prop} {s : σ}
    (hok : ∀ a s', p.run ap s = (.ok a, s') → Q a s')
    (herr : ∀ e s', p.run ap s = (.error e, s') → E s') : wp ap p Q E s := by
  unfold wp
  rcases hp : p.run ap s with ⟨e | a, s'⟩
  · exact herr e s' hp
  · exact hok a s' hp

/-- A program that cannot fail ends with its postcondition. -/
theorem wp_total {p : Prog σ ω ε α} {Q : α → σ → Prop} {s : σ} (h : wp ap p Q (fun _ => False) s) :
    ∃ a s', p.run ap s = (.ok a, s') ∧ Q a s' := by
  unfold wp at h
  rcases hp : p.run ap s with ⟨_ | a, s'⟩
  · rw [hp] at h
    exact h.elim
  · rw [hp] at h
    exact ⟨a, s', rfl, h⟩

/-- A precondition whose two postconditions agree speaks about the store alone. -/
theorem wp_store {p : Prog σ ω ε α} {I : σ → Prop} {s : σ} :
    wp ap p (fun _ => I) I s ↔ I (p.run ap s).2 := by
  unfold wp
  rcases p.run ap s with ⟨_ | a, s'⟩ <;> exact Iff.rfl

theorem wp_mono {p : Prog σ ω ε α} {Q Q' : α → σ → Prop} {E E' : σ → Prop} {s : σ}
    (h : wp ap p Q E s) (hQ : ∀ a s', Q a s' → Q' a s') (hE : ∀ s', E s' → E' s') :
    wp ap p Q' E' s := by
  unfold wp at h ⊢
  rcases hp : p.run ap s with ⟨_ | a, s'⟩
  · rw [hp] at h
    exact hE s' h
  · rw [hp] at h
    exact hQ a s' h

theorem wp_and {p : Prog σ ω ε α} {Q Q' : α → σ → Prop} {E E' : σ → Prop} {s : σ}
    (h : wp ap p Q E s) (h' : wp ap p Q' E' s) :
    wp ap p (fun a s' => Q a s' ∧ Q' a s') (fun s' => E s' ∧ E' s') s := by
  unfold wp at h h' ⊢
  rcases hp : p.run ap s with ⟨_ | a, s'⟩
  all_goals
    rw [hp] at h h'
    exact ⟨h, h'⟩

theorem wp_trivial {p : Prog σ ω ε α} {s : σ} : wp ap p (fun _ _ => True) (fun _ => True) s :=
  wp_store.mpr trivial

/-! ## One rule for each construct -/

@[simp] theorem wp_pure {a : α} {Q : α → σ → Prop} {E : σ → Prop} {s : σ} :
    wp ap (Pure.pure a : Prog σ ω ε α) Q E s ↔ Q a s := Iff.rfl

@[simp] theorem wp_ask {f : σ → α} {Q : α → σ → Prop} {E : σ → Prop} {s : σ} :
    wp ap (ask f : Prog σ ω ε α) Q E s ↔ Q (f s) s := Iff.rfl

theorem wp_ofExcept {r : Except ε α} {Q : α → σ → Prop} {E : σ → Prop} {s : σ}
    (hok : ∀ a, r = .ok a → Q a s) (herr : ∀ e, r = .error e → E s) :
    wp ap (ofExcept r : Prog σ ω ε α) Q E s := by
  cases r with
  | ok a => exact hok a rfl
  | error e => exact herr e rfl

theorem wp_exec {w : ω} {Q : Nat → σ → Prop} {E : σ → Prop} {s : σ}
    (hok : ∀ n s', ap w s = .ok (n, s') → Q n s') (herr : ∀ e, ap w s = .error e → E s) :
    wp ap (exec w : Prog σ ω ε Nat) Q E s := by
  unfold wp
  cases h : ap w s with
  | ok r =>
    rw [run_exec_ok h]
    exact hok r.1 r.2 h
  | error e =>
    rw [run_exec_error h]
    exact herr e h

@[simp] theorem wp_bind {p : Prog σ ω ε α} {f : α → Prog σ ω ε β} {Q : β → σ → Prop}
    {E : σ → Prop} {s : σ} :
    wp ap (p >>= f) Q E s ↔ wp ap p (fun a s' => wp ap (f a) Q E s') E s := by
  unfold wp
  rw [run_bind]
  rcases p.run ap s with ⟨_ | a, s'⟩ <;> exact Iff.rfl

theorem wp_ite {c : Prop} [Decidable c] {p q : Prog σ ω ε α} {Q : α → σ → Prop} {E : σ → Prop} {s : σ}
    (hpos : c → wp ap p Q E s) (hneg : ¬c → wp ap q Q E s) : wp ap (if c then p else q) Q E s := by
  by_cases h : c
  · rw [if_pos h]
    exact hpos h
  · rw [if_neg h]
    exact hneg h

/-- A failed block leaves the store it found. -/
theorem wp_atomically {p : Prog σ ω ε α} {Q : α → σ → Prop} {E : σ → Prop} {s : σ} :
    wp ap (atomically p) Q E s ↔ wp ap p Q (fun _ => E s) s := by
  unfold wp
  rw [run_atomically]
  rcases p.run ap s with ⟨_ | a, s'⟩ <;> exact Iff.rfl

theorem wp_attempt {p : Prog σ ω ε α} {Q : Except ε α → σ → Prop} {E : σ → Prop} {s : σ}
    (h : wp ap p (fun a s' => Q (.ok a) s') (fun s' => ∀ e, Q (.error e) s') s) :
    wp ap p.attempt Q E s := by
  unfold wp at h ⊢
  rw [run_attempt]
  rcases hp : p.run ap s with ⟨e | a, s'⟩
  · rw [hp] at h
    exact h e
  · rw [hp] at h
    exact h

/-! ## Loops -/

/-- An invariant that each turn of a loop keeps is kept by the loop. -/
theorem wp_forM {xs : List γ} {f : γ → Prog σ ω ε PUnit} {I E : σ → Prop} {s : σ}
    (hstep : ∀ x ∈ xs, ∀ s, I s → wp ap (f x) (fun _ => I) E s) (hs : I s) :
    wp ap (ForM.forM xs f) (fun _ => I) E s := by
  induction xs generalizing s with
  | nil => exact hs
  | cons x xs ih =>
    rw [List.forM_cons, wp_bind]
    refine wp_mono (hstep x (by simp) s hs) (fun _ s' hs' => ?_) fun _ h => h
    exact ih (fun y hy => hstep y (by simp [hy])) hs'

/-- The invariant of an accumulating loop may speak about what is accumulated. -/
theorem wp_foldlM {xs : List γ} {f : α → γ → Prog σ ω ε α} {I : α → σ → Prop} {E : σ → Prop}
    {a : α} {s : σ} (hstep : ∀ x ∈ xs, ∀ a s, I a s → wp ap (f a x) I E s) (hs : I a s) :
    wp ap (xs.foldlM f a) I E s := by
  induction xs generalizing a s with
  | nil => exact hs
  | cons x xs ih =>
    rw [List.foldlM_cons, wp_bind]
    refine wp_mono (hstep x (by simp) a s hs) (fun b s' hs' => ?_) fun _ h => h
    exact ih (fun y hy => hstep y (by simp [hy])) hs'

/-- A program whose statements all belong to a class keeps the invariants of the class. -/
theorem Emits.wp {K : ω → Prop} {I : σ → Prop}
    (step : ∀ w s n s', K w → I s → ap w s = .ok (n, s') → I s')
    {p : Prog σ ω ε α} (hp : p.Emits K) {s : σ} (hs : I s) : wp ap p (fun _ => I) I s :=
  wp_store.mpr (hp.run step hs)

end WalletToolbox.Lib.Prog
