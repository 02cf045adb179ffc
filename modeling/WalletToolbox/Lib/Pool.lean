import Mathlib.Logic.Function.Basic
import WalletToolbox.Lib.Interleave

/-! # Any number of programs on one store

A schedule names the program whose turn it is; a turn is one read, one statement or one whole block.
Where every program commits once, in a block, an invariant about the store and the results given so
far needs two proofs: that the steps before a block keep it, and that a block that commits keeps it
with its own result added. -/

namespace WalletToolbox.Lib.Prog

variable {σ ω ε α β : Type} {ap : ω → σ → Except ε (Nat × σ)}

/-- Programs that take turns on a store. -/
structure Pool (σ ω ε α : Type) where
  progs : List (Prog σ ω ε α)
  store : σ

namespace Pool

/-- A turn of the program with the given number. -/
def turn (ap : ω → σ → Except ε (Nat × σ)) (c : Pool σ ω ε α) (i : Nat) : Pool σ ω ε α :=
  match c.progs[i]? with
  | some p => ⟨c.progs.set i (p.advance ap c.store).1, (p.advance ap c.store).2⟩
  | none => c

def runs (ap : ω → σ → Except ε (Nat × σ)) (c : Pool σ ω ε α) (schedule : List Nat) : Pool σ ω ε α :=
  schedule.foldl (turn ap) c

end Pool

/-- The value that the program has ended with. -/
def result? : Prog σ ω ε α → Option α
  | .pure a => some a
  | _ => none

/-- The result of the program with the given number, if it has ended with one. -/
def Pool.result (c : Pool σ ω ε α) (i : Nat) : Option α := c.progs[i]?.bind result?

/-! ## Programs that commit once -/

/-- The steps of the program are related by `E`, until a block that commits ends it with a result:
then the store before, the result and the store after are related by `R`. -/
def Commits (ap : ω → σ → Except ε (Nat × σ)) (E : σ → σ → Prop) {α : Type} (R : σ → α → σ → Prop) :
    Prog σ ω ε α → Prop
  | .pure _ => False
  | .fail _ => True
  | .read k => ∀ s, (k s).Commits ap E R
  | .write w k => (∀ s n s', ap w s = .ok (n, s') → E s s') ∧ ∀ r, (k r).Commits ap E R
  | .block p k =>
    (∀ s b s', p.run ap s = (.ok b, s') →
      E s s' ∧ (k (.ok b)).Commits ap E R ∨ ∃ a, k (.ok b) = .pure a ∧ R s a s') ∧
    ∀ e, (k (.error e)).Commits ap E R

section Commits

variable {E : σ → σ → Prop} {R : σ → α → σ → Prop}

/-- Steps that keep to `E` come before the block. -/
theorem Commits.bind {K : ω → Prop} {p : Prog σ ω ε β} {f : β → Prog σ ω ε α}
    (hrefl : ∀ s, E s s) (htrans : ∀ s₁ s₂ s₃, E s₁ s₂ → E s₂ s₃ → E s₁ s₃)
    (hK : ∀ w s n s', K w → ap w s = .ok (n, s') → E s s') (hp : p.Emits K)
    (hf : ∀ b, (f b).Commits ap E R) : (p >>= f).Commits ap E R := by
  show (p.bind f).Commits ap E R
  induction p with
  | pure b => exact hf b
  | fail e => trivial
  | read k ih => exact fun s => ih s (hp s) hf
  | write w k ih => exact ⟨fun s n s' h => hK w s n s' hp.1 h, fun r => ih r (hp.2 r) hf⟩
  | block q k _ ih =>
    refine ⟨fun s b s' hrun => .inl ⟨?_, ih _ (hp.2 _) hf⟩, fun e => ih _ (hp.2 _) hf⟩
    have hkeep := Emits.run (I := E s)
      (fun w s₁ n s₂ hw h₁ hexec => htrans _ _ _ h₁ (hK w s₁ n s₂ hw hexec)) hp.1 (hrefl s)
    rwa [hrun] at hkeep

theorem commits_atomically {p : Prog σ ω ε α}
    (h : ∀ s a s', p.run ap s = (.ok a, s') → R s a s') : (atomically p).Commits ap E R :=
  ⟨fun s a s' hrun => .inr ⟨a, rfl, h s a s' hrun⟩, fun _ => trivial⟩

/-- One turn. -/
theorem Commits.advance {p : Prog σ ω ε α} (h : p.Commits ap E R) (hrefl : ∀ s, E s s) (s : σ) :
    (p.advance ap s).1.Commits ap E R ∧ E s (p.advance ap s).2 ∨
      ∃ a, (p.advance ap s).1 = .pure a ∧ R s a (p.advance ap s).2 := by
  cases p with
  | pure a => exact h.elim
  | fail e => exact .inl ⟨trivial, hrefl s⟩
  | read k => exact .inl ⟨h s, hrefl s⟩
  | write w k =>
    simp only [Prog.advance, step]
    cases hw : ap w s with
    | ok r => exact .inl ⟨h.2 _, h.1 s r.1 r.2 hw⟩
    | error e => exact .inl ⟨h.2 _, hrefl s⟩
  | block q k =>
    simp only [Prog.advance, step]
    rcases hrun : q.run ap s with ⟨e | b, s'⟩
    · exact .inl ⟨h.2 e, hrefl s⟩
    · rcases h.1 s b s' hrun with ⟨hE, hk⟩ | ⟨a, hk, hR⟩
      · exact .inl ⟨hk, hE⟩
      · exact .inr ⟨a, hk, hR⟩

theorem Commits.result_none {p : Prog σ ω ε α} (h : p.Commits ap E R) : p.result? = none := by
  cases p with
  | pure a => exact h.elim
  | _ => rfl

end Commits

/-! ## The rule -/

section Rule

variable {E : σ → σ → Prop} {R : Nat → σ → α → σ → Prop} {J : (Nat → Option α) → σ → Prop}

theorem Pool.result_turn {c : Pool σ ω ε α} {i : Nat} {p : Prog σ ω ε α} (h : c.progs[i]? = some p) :
    (c.turn ap i).result = Function.update c.result i (p.advance ap c.store).1.result? := by
  have hi : i < c.progs.length := (List.getElem?_eq_some_iff.mp h).1
  funext j
  by_cases hj : j = i
  · subst hj
    rw [Function.update_self]
    simp only [Pool.turn, Pool.result, h, List.getElem?_set_self hi, Option.bind_some]
  · rw [Function.update_of_ne hj]
    simp only [Pool.turn, Pool.result, h, List.getElem?_set_ne (Ne.symm hj)]

/-- What holds with no result and is kept by the steps and by every block that commits holds after
every schedule of programs that commit once. -/
theorem Pool.runs_inv (hrefl : ∀ s, E s s) (hE : ∀ f s s', J f s → E s s' → J f s')
    (hR : ∀ f i s a s', J f s → f i = none → R i s a s' → J (Function.update f i (some a)) s')
    {progs : List (Prog σ ω ε α)}
    (hprogs : ∀ (i : Nat) (p : Prog σ ω ε α), progs[i]? = some p → p.Commits ap E (R i))
    {s : σ} (hs : J (fun _ => none) s) (schedule : List Nat) :
    J ((Pool.mk progs s).runs ap schedule).result ((Pool.mk progs s).runs ap schedule).store := by
  -- Every program still has its block before it, or it has its result.
  have hkeep : ∀ (schedule : List Nat) (c : Pool σ ω ε α),
      (∀ (i : Nat) (p : Prog σ ω ε α), c.progs[i]? = some p →
        p.Commits ap E (R i) ∨ ∃ a, p = Prog.pure a) →
      J c.result c.store → J (c.runs ap schedule).result (c.runs ap schedule).store := by
    intro schedule
    induction schedule with
    | nil => exact fun _ _ h => h
    | cons i rest ih =>
      intro c hc hJ
      show J ((c.turn ap i).runs ap rest).result ((c.turn ap i).runs ap rest).store
      cases hp : c.progs[i]? with
      | none =>
        have hturn : c.turn ap i = c := by simp only [Pool.turn, hp]
        rw [hturn]
        exact ih c hc hJ
      | some p =>
        have hi : i < c.progs.length := (List.getElem?_eq_some_iff.mp hp).1
        have hother : ∀ j q, j ≠ i → (c.turn ap i).progs[j]? = some q → c.progs[j]? = some q := by
          intro j q hj hq
          simpa only [Pool.turn, hp, List.getElem?_set_ne (Ne.symm hj)] using hq
        have hself : (c.turn ap i).progs[i]? = some (p.advance ap c.store).1 := by
          simp only [Pool.turn, hp, List.getElem?_set_self hi]
        have hstore : (c.turn ap i).store = (p.advance ap c.store).2 := by simp only [Pool.turn, hp]
        have hresult : (c.turn ap i).result = _ := result_turn hp
        have hold : c.result i = p.result? := by simp only [Pool.result, hp, Option.bind_some]
        rcases hc i p hp with hcommits | ⟨a, rfl⟩
        · have hnone := hold.trans hcommits.result_none
          rcases hcommits.advance hrefl c.store with ⟨hnext, hstep⟩ | ⟨a, hnext, hblock⟩
          · refine ih _ (fun j q hq => ?_) ?_
            · by_cases hj : j = i
              · subst hj
                exact .inl (Option.some.inj (hself.symm.trans hq) ▸ hnext)
              · exact hc j q (hother j q hj hq)
            · rw [hresult, hnext.result_none, ← hnone, Function.update_eq_self, hstore]
              exact hE _ _ _ hJ hstep
          · refine ih _ (fun j q hq => ?_) ?_
            · by_cases hj : j = i
              · subst hj
                exact .inr ⟨a, (Option.some.inj (hself.symm.trans hq)).symm.trans hnext⟩
              · exact hc j q (hother j q hj hq)
            · rw [hresult, hnext, hstore]
              exact hR _ i _ a _ hJ hnone hblock
        · refine ih _ (fun j q hq => ?_) ?_
          · by_cases hj : j = i
            · subst hj
              exact .inr ⟨a, (Option.some.inj (hself.symm.trans hq)).symm⟩
            · exact hc j q (hother j q hj hq)
          · have hsame : c.result i = (Prog.pure a : Prog σ ω ε α).result? := hold
            rw [hresult, hstore, show ((Prog.pure a : Prog σ ω ε α).advance ap c.store).1.result? =
              c.result i from hsame.symm, Function.update_eq_self]
            exact hJ
  have hnone : (Pool.mk progs s).result = fun _ => none := by
    funext i
    cases hp : progs[i]? with
    | none => simp only [Pool.result, hp, Option.bind_none]
    | some p => simp only [Pool.result, hp, Option.bind_some, (hprogs i p hp).result_none]
  exact hkeep schedule _ (fun i p hp => .inl (hprogs i p hp)) (hnone ▸ hs)

end Rule

end WalletToolbox.Lib.Prog
