import WalletToolbox.Lib.Prog

/-! # Programs that are interrupted and run again

A program whose statements commit one by one may stop after any number of them.
`interrupted` is the store it leaves behind, and a program `Resumes` when a second run from there
ends like the run that was not interrupted. -/

namespace WalletToolbox.Lib.Prog

variable {σ ω ε α β γ : Type} {ap : ω → σ → Except ε (Nat × σ)}

/-- The store that is left when the process stops after `n` statements of the run; a block that
has not committed leaves nothing. -/
def interrupted (ap : ω → σ → Except ε (Nat × σ)) {α : Type} : Prog σ ω ε α → Nat → σ → σ
  | .pure _, _, s => s
  | .fail _, _, s => s
  | .read k, n, s => (k s).interrupted ap n s
  | .write w k, n, s =>
    match ap w s with
    | .ok (m, s') => if n = 0 then s else (k (.ok m)).interrupted ap (n - 1) s'
    | .error e => (k (.error e)).interrupted ap n s
  | .block p k, n, s =>
    match p.run ap s with
    | (.ok b, s') =>
      let length := (p.trace ap s).length
      if n < length then s else (k (.ok b)).interrupted ap (n - length) s'
    | (.error e, _) => (k (.error e)).interrupted ap n s

theorem trace_bind (p : Prog σ ω ε α) (f : α → Prog σ ω ε β) (s : σ) :
    (p >>= f).trace ap s = p.trace ap s ++
      match p.run ap s with
      | (.ok a, s') => (f a).trace ap s'
      | (.error _, _) => [] := by
  show (p.bind f).trace ap s = _
  induction p generalizing s with
  | pure a => rfl
  | fail e => rfl
  | read k ih => exact ih s f s
  | write w k ih =>
    simp only [bind, trace, run]
    cases ap w s with
    | ok r =>
      simp only [List.cons_append]
      exact congrArg _ (ih _ f _)
    | error e => exact ih _ f s
  | block p k _ ih =>
    simp only [bind, trace, run]
    rcases p.run ap s with ⟨_ | b, s'⟩
    · exact ih _ f s
    · simp only [List.append_assoc]
      exact congrArg _ (ih _ f s')

theorem length_trace_bind {p : Prog σ ω ε α} {f : α → Prog σ ω ε β} {s : σ} {m n : Nat}
    (hp : (p.trace ap s).length ≤ m)
    (hf : ∀ a s₁, p.run ap s = (.ok a, s₁) → ((f a).trace ap s₁).length ≤ n) :
    ((p >>= f).trace ap s).length ≤ m + n := by
  rw [trace_bind, List.length_append]
  rcases hr : p.run ap s with ⟨e | a, s₁⟩
  · exact Nat.le_add_right_of_le hp
  · exact Nat.add_le_add hp (hf a s₁ hr)

theorem trace_ofExcept (x : Except ε α) (s : σ) : (ofExcept x : Prog σ ω ε α).trace ap s = [] := by
  cases x <;> rfl

theorem length_trace_exec (w : ω) (s : σ) : ((exec w : Prog σ ω ε Nat).trace ap s).length ≤ 1 := by
  simp only [exec, trace]
  cases ap w s with
  | ok answer => simp [trace_ofExcept]
  | error e => simp [trace_ofExcept]

/-- The statements of the first part come before those of the second part. -/
theorem interrupted_bind (p : Prog σ ω ε α) (f : α → Prog σ ω ε β) (n : Nat) (s : σ) :
    (p >>= f).interrupted ap n s =
      if n < (p.trace ap s).length then p.interrupted ap n s
      else match p.run ap s with
        | (.ok a, s') => (f a).interrupted ap (n - (p.trace ap s).length) s'
        | (.error _, s') => s' := by
  show (p.bind f).interrupted ap n s = _
  induction p generalizing n s with
  | pure a => rfl
  | fail e => rfl
  | read k ih => exact ih s f n s
  | write w k ih =>
    simp only [bind, interrupted, trace, run]
    cases ap w s with
    | ok r =>
      simp only [List.length_cons]
      cases n with
      | zero => simp
      | succ n =>
        rw [if_neg (Nat.succ_ne_zero n), Nat.add_sub_cancel, ih _ f n _]
        simp only [Nat.add_lt_add_iff_right, if_neg (Nat.succ_ne_zero n), Nat.add_sub_add_right]
    | error e => exact ih _ f n s
  | block p k _ ih =>
    simp only [bind, interrupted, trace, run]
    rcases p.run ap s with ⟨_ | b, s'⟩
    · exact ih _ f n s
    · simp only [List.length_append]
      by_cases hn : n < (p.trace ap s).length
      · rw [if_pos hn, if_pos (by omega), if_pos hn]
      · rw [if_neg hn, if_neg hn, ih _ f _ s']
        simp only [Nat.sub_sub]
        have hiff : n - (p.trace ap s).length < ((k (.ok b)).trace ap s').length ↔
            n < (p.trace ap s).length + ((k (.ok b)).trace ap s').length := by omega
        simp only [hiff]

/-- A first part that only reads does not count. -/
theorem interrupted_bind_of_read {p : Prog σ ω ε α} {f : α → Prog σ ω ε β} {s : σ} {a : α}
    (hrun : p.run ap s = (.ok a, s)) (htrace : p.trace ap s = []) (n : Nat) :
    (p >>= f).interrupted ap n s = (f a).interrupted ap n s := by
  simp [interrupted_bind, htrace, hrun]

theorem interrupted_bind_congr {p : Prog σ ω ε α} {f : α → Prog σ ω ε β} {g : α → Prog σ ω ε γ} {s : σ}
    (h : ∀ a s₁, p.run ap s = (.ok a, s₁) → ∀ n, (f a).interrupted ap n s₁ = (g a).interrupted ap n s₁)
    (n : Nat) : (p >>= f).interrupted ap n s = (p >>= g).interrupted ap n s := by
  rw [interrupted_bind, interrupted_bind]
  rcases hr : p.run ap s with ⟨e | a, s₁⟩
  · rfl
  · simp only [h a s₁ hr]

theorem interrupted_of_le {p : Prog σ ω ε α} {n : Nat} {s : σ} (h : (p.trace ap s).length ≤ n) :
    p.interrupted ap n s = (p.run ap s).2 := by
  have hbind := @interrupted_bind σ ω ε α α ap p Pure.pure n s
  rw [bind_pure, if_neg (by omega)] at hbind
  rw [hbind]
  rcases p.run ap s with ⟨_ | a, s'⟩ <;> rfl

theorem interrupted_zero (p : Prog σ ω ε α) (s : σ) : p.interrupted ap 0 s = s := by
  induction p generalizing s with
  | pure a => rfl
  | fail e => rfl
  | read k ih => exact ih s s
  | write w k ih =>
    simp only [interrupted]
    cases ap w s with
    | ok r => simp only [if_true]
    | error e => exact ih _ s
  | block p k _ ih =>
    simp only [interrupted]
    rcases hr : p.run ap s with ⟨_ | b, s'⟩
    · exact ih _ s
    · simp only
      by_cases hlength : 0 < (p.trace ap s).length
      · rw [if_pos hlength]
      · -- a block without statements leaves the store as it is
        rw [if_neg hlength, Nat.zero_sub, ih]
        have hnone : p.trace ap s = [] := List.length_eq_zero_iff.mp (Nat.eq_zero_of_not_pos hlength)
        have hsame : (p.run ap s).2 = s := run_of_trace (I := fun s₁ => s₁ = s) (C := fun _ _ => False)
          (fun _ _ _ _ h => h.elim) (by simp [hnone]) rfl
        rwa [hr] at hsame

/-- A sequence that stops before the first statement of its second part stops in the first part. -/
theorem interrupted_bind_first {p : Prog σ ω ε α} {f : α → Prog σ ω ε β} {s : σ} {n : Nat}
    {C : σ × ω → Prop} (hn : ∀ x ∈ ((p >>= f).trace ap s).take n, C x)
    (hf : ∀ a s₁, p.run ap s = (.ok a, s₁) → ∃ x rest, (f a).trace ap s₁ = x :: rest ∧ ¬C x) :
    (p >>= f).interrupted ap n s = p.interrupted ap n s := by
  rw [interrupted_bind]
  split
  · rfl
  · rename_i hlength
    rw [interrupted_of_le (p := p) (Nat.not_lt.mp hlength)]
    rcases hr : p.run ap s with ⟨e | a, s₁⟩
    · rfl
    · obtain ⟨x, rest, hx, hnot⟩ := hf a s₁ hr
      by_cases hend : n = (p.trace ap s).length
      · simp only [hend, Nat.sub_self, interrupted_zero]
      · refine absurd (hn x ?_) hnot
        rw [trace_bind, hr]
        simp only [hx]
        rw [List.take_append, List.mem_append]
        right
        obtain ⟨m, hm⟩ : ∃ m, n - (p.trace ap s).length = m + 1 :=
          ⟨n - (p.trace ap s).length - 1, by omega⟩
        rw [hm, List.take_succ_cons]
        exact List.mem_cons_self

/-- A property of the store that holds wherever a program may be interrupted. -/
def Passes (ap : ω → σ → Except ε (Nat × σ)) (p : Prog σ ω ε α) (I : σ → Prop) (s : σ) : Prop :=
  ∀ n, I (p.interrupted ap n s)

namespace Passes

variable {I : σ → Prop} {s : σ}

theorem last {p : Prog σ ω ε α} (h : Passes ap p I s) : I (p.run ap s).2 := by
  have h := h (p.trace ap s).length
  rwa [interrupted_of_le (Nat.le_refl _)] at h

theorem bind {p : Prog σ ω ε α} {f : α → Prog σ ω ε β} (hp : Passes ap p I s)
    (hf : ∀ a s₁, p.run ap s = (.ok a, s₁) → Passes ap (f a) I s₁) : Passes ap (p >>= f) I s := by
  intro n
  rw [interrupted_bind]
  split
  · exact hp n
  · rcases hr : p.run ap s with ⟨e | a, s₁⟩
    · have h := hp.last
      rwa [hr] at h
    · exact hf a s₁ hr _

end Passes

/-- A program that issues at most one statement stops before or after it. -/
theorem interrupted_cases {p : Prog σ ω ε α} {s : σ} (h : (p.trace ap s).length ≤ 1) (n : Nat) :
    p.interrupted ap n s = s ∨ p.interrupted ap n s = (p.run ap s).2 := by
  cases n with
  | zero => exact .inl (interrupted_zero p s)
  | succ n => exact .inr (interrupted_of_le (by omega))

/-! ## Running again -/

/-- Two ends of a program: the same store, and the same error or related values. -/
structure Agree (R : α → β → Prop) (x : Except ε α × σ) (y : Except ε β × σ) : Prop where
  store : y.2 = x.2
  ok : ∀ a, x.1 = .ok a → ∃ b, y.1 = .ok b ∧ R a b
  error : ∀ e, x.1 = .error e → y.1 = .error e

namespace Agree

variable {R : α → β → Prop}

theorem refl_error (e : ε) (s : σ) : Agree R (.error e, s) (.error e, s) :=
  ⟨rfl, nofun, fun _ h => by cases h; rfl⟩

theorem pure {a : α} {b : β} (h : R a b) (s : σ) :
    Agree R ((Pure.pure a : Prog σ ω ε α).run ap s) ((Pure.pure b : Prog σ ω ε β).run ap s) :=
  ⟨rfl, fun _ ha => ⟨b, rfl, by cases ha; exact h⟩, nofun⟩

/-- Two programs that begin alike. -/
theorem bind {p : Prog σ ω ε γ} {f : γ → Prog σ ω ε α} {g : γ → Prog σ ω ε β} {s : σ}
    (h : ∀ c s₁, p.run ap s = (.ok c, s₁) → Agree R ((f c).run ap s₁) ((g c).run ap s₁)) :
    Agree R ((p >>= f).run ap s) ((p >>= g).run ap s) := by
  rw [run_bind, run_bind]
  rcases hr : p.run ap s with ⟨e | c, s₁⟩
  · exact refl_error e s₁
  · exact h c s₁ hr

end Agree

/-- Interrupted anywhere and run again as `q`, the program ends as if it had not been interrupted. -/
def Resumes (ap : ω → σ → Except ε (Nat × σ)) (R : α → β → Prop) (p : Prog σ ω ε α)
    (q : Prog σ ω ε β) (s : σ) : Prop :=
  ∀ n, Agree R (p.run ap s) (q.run ap (p.interrupted ap n s))

namespace Resumes

variable {δ : Type} {R : α → β → Prop} {S : γ → δ → Prop} {p : Prog σ ω ε α} {q : Prog σ ω ε β}
  {s : σ}

theorem start (h : Resumes ap R p q s) : Agree R (p.run ap s) (q.run ap s) := by
  have h := h 0
  rwa [interrupted_zero] at h

/-- A sequence resumes when its parts do, and when the first part, run again at any store where the
second part may stop, has nothing left to do. -/
theorem bind {f : α → Prog σ ω ε γ} {g : β → Prog σ ω ε δ} (hp : Resumes ap R p q s)
    (hdone : ∀ a s₁, p.run ap s = (.ok a, s₁) →
      Passes ap (f a) (fun s₂ => ∃ b, R a b ∧ q.run ap s₂ = (.ok b, s₂)) s₁)
    (hf : ∀ a b s₁, p.run ap s = (.ok a, s₁) → R a b → Resumes ap S (f a) (g b) s₁) :
    Resumes ap S (p >>= f) (q >>= g) s := by
  intro n
  have hagree := hp n
  rw [run_bind, run_bind, interrupted_bind]
  rcases hr : p.run ap s with ⟨e | a, s₁⟩
  · have hend : (if n < (p.trace ap s).length then p.interrupted ap n s else s₁) =
        p.interrupted ap n s := by
      split
      · rfl
      · rw [interrupted_of_le (by omega), hr]
    simp only [hend]
    rw [hr] at hagree
    rcases hq : q.run ap (p.interrupted ap n s) with ⟨e' | b, s₂⟩
    · rw [hq] at hagree
      have herror : e' = e := Except.error.inj (hagree.error e rfl)
      subst herror
      refine ⟨hagree.store, nofun, fun e₁ he => ?_⟩
      cases he
      rfl
    · have herror := hagree.error e rfl
      rw [hq] at herror
      cases herror
  · by_cases hn : n < (p.trace ap s).length
    · rw [if_pos hn]
      rw [hr] at hagree
      obtain ⟨b, hb, hR⟩ := hagree.ok a rfl
      have hstore := hagree.store
      rcases hq : q.run ap (p.interrupted ap n s) with ⟨e' | b', s₂⟩
      · rw [hq] at hb
        cases hb
      · rw [hq] at hb hstore
        cases hb
        cases hstore
        exact (hf a b s₁ hr hR).start
    · simp only [if_neg hn]
      obtain ⟨b, hR, hq⟩ := hdone a s₁ hr (n - (p.trace ap s).length)
      simp only [hq]
      exact hf a b s₁ hr hR _

end Resumes

/-! ## A change of the store that a program does not see -/

/-- The program does the same on the changed store and keeps the change. -/
def Ignores (ap : ω → σ → Except ε (Nat × σ)) (f : σ → σ) (p : Prog σ ω ε α) (s : σ) : Prop :=
  p.run ap (f s) = ((p.run ap s).1, f (p.run ap s).2)

namespace Ignores

variable {f : σ → σ} {s : σ}

theorem pure (a : α) : Ignores ap f (Pure.pure a : Prog σ ω ε α) s := rfl

theorem ofExcept (r : Except ε α) : Ignores ap f (Prog.ofExcept r : Prog σ ω ε α) s := by
  cases r <;> rfl

theorem ask {g : σ → α} (h : g (f s) = g s) : Ignores ap f (Prog.ask g : Prog σ ω ε α) s := by
  unfold Ignores
  rw [run_ask, run_ask, h]

theorem exec {w : ω} (h : ap w (f s) = (ap w s).map fun r => (r.1, f r.2)) :
    Ignores ap f (Prog.exec w : Prog σ ω ε Nat) s := by
  unfold Ignores
  cases hw : ap w s with
  | ok r =>
    rw [hw] at h
    rw [run_exec_ok h, run_exec_ok hw]
  | error e =>
    rw [hw] at h
    rw [run_exec_error h, run_exec_error hw]

theorem bind {p : Prog σ ω ε α} {g : α → Prog σ ω ε β} (hp : Ignores ap f p s)
    (hg : ∀ a s₁, p.run ap s = (.ok a, s₁) → Ignores ap f (g a) s₁) : Ignores ap f (p >>= g) s := by
  unfold Ignores
  rw [run_bind, run_bind, hp]
  rcases hr : p.run ap s with ⟨e | a, s₁⟩
  · rfl
  · exact hg a s₁ hr

theorem foldlM {xs : List γ} {g : α → γ → Prog σ ω ε α} (hg : ∀ a x s, Ignores ap f (g a x) s)
    (a : α) (s : σ) : Ignores ap f (xs.foldlM g a) s := by
  induction xs generalizing a s with
  | nil => exact pure a
  | cons x xs ih =>
    rw [List.foldlM_cons]
    exact bind (hg a x s) fun b s₁ _ => ih b s₁

end Ignores

end WalletToolbox.Lib.Prog
