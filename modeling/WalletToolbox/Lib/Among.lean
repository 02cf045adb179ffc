import WalletToolbox.Lib.Pool
import WalletToolbox.Lib.Wp

/-! # A program among others

Between two turns of a program the others may have their turns, and what it read may be out of date.
`among` is a precondition that takes this into account: `R` relates a store to those that the others
can make of it, and whatever they do, each statement of the program is `ok` at the store it finds and
the program ends in `Q`.
Inside a block the program is alone, which is the relation `Eq`.
A fact that was read can be used later when `R` preserves it, so a proof about a program needs such
facts only and no account of what the other programs are. -/

namespace WalletToolbox.Lib.Prog

variable {σ ω ε α β γ : Type} {ap : ω → σ → Except ε (Nat × σ)} {ok : σ → ω → Prop}

/-- From the store `s` on, with others that keep to `R`. -/
def among (ap : ω → σ → Except ε (Nat × σ)) (ok : σ → ω → Prop) {α : Type} :
    Prog σ ω ε α → (σ → σ → Prop) → (α → σ → Prop) → σ → Prop
  | .pure a, R, Q, s => ∀ s', R s s' → Q a s'
  | .fail _, _, _, _ => True
  | .read k, R, Q, s => ∀ s', R s s' → (k s').among ap ok R Q s'
  | .write w k, R, Q, s => ∀ s', R s s' → ok s' w ∧
      (∀ n s'', ap w s' = .ok (n, s'') → (k (.ok n)).among ap ok R Q s'') ∧
        ∀ e, (k (.error e)).among ap ok R Q s'
  | .block p k, R, Q, s => ∀ s', R s s' →
      p.among ap ok Eq (fun b s'' => (k (.ok b)).among ap ok R Q s'') s' ∧
        ∀ e, (k (.error e)).among ap ok R Q s'

/-! ## Rules -/

section Rules

variable {R : σ → σ → Prop} {Q Q' : α → σ → Prop} {s s' : σ}

theorem among_mono {p : Prog σ ω ε α} (h : p.among ap ok R Q s) (hQ : ∀ a s', Q a s' → Q' a s') :
    p.among ap ok R Q' s := by
  induction p generalizing R s with
  | pure a => exact fun s' hs => hQ a s' (h s' hs)
  | fail e => trivial
  | read k ih => exact fun s' hs => ih s' (h s' hs) hQ
  | write w k ih =>
    exact fun s' hs => ⟨(h s' hs).1, fun n s'' hw => ih _ ((h s' hs).2.1 n s'' hw) hQ,
      fun e => ih _ ((h s' hs).2.2 e) hQ⟩
  | block p k ihp ih =>
    exact fun s' hs => ⟨ihp (h s' hs).1 fun b s'' hb => ih _ hb hQ, fun e => ih _ ((h s' hs).2 e) hQ⟩

/-- Turns of the others do no harm. -/
theorem among_stable {p : Prog σ ω ε α} (htrans : ∀ s₁ s₂ s₃, R s₁ s₂ → R s₂ s₃ → R s₁ s₃)
    (h : p.among ap ok R Q s) (hs : R s s') : p.among ap ok R Q s' := by
  cases p with
  | fail e => trivial
  | _ => exact fun s'' hs' => h s'' (htrans _ _ _ hs hs')

theorem among_bind {p : Prog σ ω ε β} {f : β → Prog σ ω ε α} (hrefl : ∀ s, R s s)
    (h : p.among ap ok R (fun b s' => (f b).among ap ok R Q s') s) :
    (p >>= f).among ap ok R Q s := by
  show (p.bind f).among ap ok R Q s
  induction p generalizing s with
  | pure b => exact h s (hrefl s)
  | fail e => trivial
  | read k ih => exact fun s' hs => ih s' (h s' hs)
  | write w k ih =>
    exact fun s' hs => ⟨(h s' hs).1, fun n s'' hw => ih _ ((h s' hs).2.1 n s'' hw),
      fun e => ih _ ((h s' hs).2.2 e)⟩
  | block p k _ ih =>
    exact fun s' hs => ⟨among_mono (h s' hs).1 fun b s'' hb => ih _ hb, fun e => ih _ ((h s' hs).2 e)⟩

theorem among_pure {a : α} (h : ∀ s', R s s' → Q a s') :
    (Pure.pure a : Prog σ ω ε α).among ap ok R Q s := h

theorem among_ask {f : σ → α} (h : ∀ s', R s s' → ∀ s'', R s' s'' → Q (f s') s'') :
    (ask f : Prog σ ω ε α).among ap ok R Q s := h

theorem among_ofExcept {r : Except ε α} (h : ∀ a, r = .ok a → ∀ s', R s s' → Q a s') :
    (ofExcept r : Prog σ ω ε α).among ap ok R Q s := by
  cases r with
  | ok a => exact h a rfl
  | error e => trivial

theorem among_exec {w : ω} {Q : Nat → σ → Prop} (h : ∀ s', R s s' → ok s' w ∧
    ∀ n s'', ap w s' = .ok (n, s'') → ∀ s₃, R s'' s₃ → Q n s₃) :
    (exec w : Prog σ ω ε Nat).among ap ok R Q s :=
  fun s' hs => ⟨(h s' hs).1, fun n s'' hw => (h s' hs).2 n s'' hw, fun _ => trivial⟩

theorem among_atomically {p : Prog σ ω ε α}
    (h : ∀ s', R s s' → p.among ap ok Eq (fun a s'' => ∀ s₃, R s'' s₃ → Q a s₃) s') :
    (atomically p).among ap ok R Q s :=
  fun s' hs => ⟨h s' hs, fun _ => trivial⟩

/-- What nobody breaks, the program included, holds at the end. -/
theorem among_inv {p : Prog σ ω ε α} {I : σ → Prop} (hI : ∀ s s', I s → R s s' → I s')
    (hstep : ∀ w s n s', ap w s = .ok (n, s') → I s → I s') (h : p.among ap ok R Q s) (hs : I s) :
    p.among ap ok R (fun a s' => Q a s' ∧ I s') s := by
  induction p generalizing R s with
  | pure a => exact fun s' hs' => ⟨h s' hs', hI s s' hs hs'⟩
  | fail e => trivial
  | read k ih => exact fun s' hs' => ih s' hI (h s' hs') (hI s s' hs hs')
  | write w k ih =>
    exact fun s' hs' => ⟨(h s' hs').1,
      fun n s'' hw => ih _ hI ((h s' hs').2.1 n s'' hw) (hstep w s' n s'' hw (hI s s' hs hs')),
      fun e => ih _ hI ((h s' hs').2.2 e) (hI s s' hs hs')⟩
  | block p k ihp ih =>
    refine fun s' hs' => ⟨among_mono (ihp (fun s₁ s₂ h h' => h' ▸ h) (h s' hs').1 (hI s s' hs hs'))
      fun b s'' hb => ih _ hI hb.1 hb.2, fun e => ih _ hI ((h s' hs').2 e) (hI s s' hs hs')⟩

/-- With no condition on the statements. -/
theorem among_true (p : Prog σ ω ε α) :
    p.among ap (fun _ _ => True) R (fun _ _ => True) s := by
  induction p generalizing R s with
  | pure a => exact fun _ _ => trivial
  | fail e => trivial
  | read k ih => exact fun s' _ => ih s'
  | write w k ih => exact fun s' _ => ⟨trivial, fun n _ _ => ih (.ok n), fun e => ih (.error e)⟩
  | block p k ihp ih =>
    exact fun s' _ => ⟨among_mono ihp fun b _ _ => ih (.ok b), fun e => ih (.error e)⟩

/-- A condition on the statements that follows from another where an invariant holds. -/
theorem among_weaken {ok' : σ → ω → Prop} {p : Prog σ ω ε α} {I : σ → Prop}
    (hI : ∀ s s', I s → R s s' → I s') (hstep : ∀ w s n s', ap w s = .ok (n, s') → I s → I s')
    (hok : ∀ w s, I s → ok s w → ok' s w) (h : p.among ap ok R Q s) (hs : I s) :
    p.among ap ok' R Q s := by
  induction p generalizing R s with
  | pure a => exact h
  | fail e => trivial
  | read k ih => exact fun s' hs' => ih s' hI (h s' hs') (hI s s' hs hs')
  | write w k ih =>
    exact fun s' hs' => ⟨hok w s' (hI s s' hs hs') (h s' hs').1,
      fun n s'' hw => ih _ hI ((h s' hs').2.1 n s'' hw) (hstep w s' n s'' hw (hI s s' hs hs')),
      fun e => ih _ hI ((h s' hs').2.2 e) (hI s s' hs hs')⟩
  | block p k ihp ih =>
    have halone : ∀ s₁ s₂, I s₁ → s₁ = s₂ → I s₂ := fun _ _ h₁ heq => heq ▸ h₁
    refine fun s' hs' => ⟨ihp halone (among_mono (among_inv halone hstep (h s' hs').1 (hI s s' hs hs'))
      fun b s'' hb => ih _ hI hb.1 hb.2) (hI s s' hs hs'), fun e => ih _ hI ((h s' hs').2 e)
        (hI s s' hs hs')⟩

/-- A failure that is turned into a value; what holds then is what nobody breaks. -/
theorem among_attempt {p : Prog σ ω ε α} {I : σ → Prop} (hI : ∀ s s', I s → R s s' → I s')
    (hstep : ∀ w s n s', ap w s = .ok (n, s') → I s → I s') (h : p.among ap ok R Q s) (hs : I s) :
    p.attempt.among ap ok R (fun _ => I) s := by
  induction p generalizing s with
  | pure a => exact fun s' hs' => hI s s' hs hs'
  | fail e => exact fun s' hs' => hI s s' hs hs'
  | read k ih => exact fun s' hs' => ih s' (h s' hs') (hI s s' hs hs')
  | write w k ih =>
    exact fun s' hs' => ⟨(h s' hs').1,
      fun n s'' hw => ih _ ((h s' hs').2.1 n s'' hw) (hstep w s' n s'' hw (hI s s' hs hs')),
      fun e => ih _ ((h s' hs').2.2 e) (hI s s' hs hs')⟩
  | block p k _ ih =>
    refine fun s' hs' => ⟨among_mono
      (among_inv (fun s₁ s₂ h h' => h' ▸ h) hstep (h s' hs').1 (hI s s' hs hs'))
      fun b s'' hb => ih _ hb.1 hb.2, fun e => ih _ ((h s' hs').2 e) (hI s s' hs hs')⟩

/-- An invariant of a loop that the others keep as well. -/
theorem among_forM {xs : List γ} {f : γ → Prog σ ω ε PUnit} {I : σ → Prop} (hrefl : ∀ s, R s s)
    (hI : ∀ s s', I s → R s s' → I s')
    (hstep : ∀ x ∈ xs, ∀ s, I s → (f x).among ap ok R (fun _ => I) s) (hs : I s) :
    (ForM.forM xs f).among ap ok R (fun _ => I) s := by
  induction xs generalizing s with
  | nil => exact fun s' hs' => hI s s' hs hs'
  | cons x xs ih =>
    rw [List.forM_cons]
    exact among_bind hrefl (among_mono (hstep x (by simp) s hs) fun _ s' hs' =>
      ih (fun y hy => hstep y (by simp [hy])) hs')

theorem among_foldlM {xs : List γ} {f : α → γ → Prog σ ω ε α} {I : α → σ → Prop} {a : α}
    (hrefl : ∀ s, R s s) (hI : ∀ a s s', I a s → R s s' → I a s')
    (hstep : ∀ x ∈ xs, ∀ a s, I a s → (f a x).among ap ok R I s) (hs : I a s) :
    (xs.foldlM f a).among ap ok R I s := by
  induction xs generalizing a s with
  | nil => exact fun s' hs' => hI a s s' hs hs'
  | cons x xs ih =>
    rw [List.foldlM_cons]
    exact among_bind hrefl (among_mono (hstep x (by simp) a s hs) fun b s' hs' =>
      ih (fun y hy => hstep y (by simp [hy])) hs')

/-- A program whose statements are `ok` wherever an invariant holds that nobody breaks. -/
theorem Emits.among {K : ω → Prop} {I : σ → Prop} {p : Prog σ ω ε α} (hp : p.Emits K)
    (hok : ∀ w s, K w → I s → ok s w) (hI : ∀ s s', I s → R s s' → I s')
    (hstep : ∀ w s n s', ap w s = .ok (n, s') → I s → I s') (hs : I s) :
    p.among ap ok R (fun _ => I) s := by
  induction p generalizing R s with
  | pure a => exact fun s' hs' => hI s s' hs hs'
  | fail e => trivial
  | read k ih => exact fun s' hs' => ih s' (hp s') hI (hI s s' hs hs')
  | write w k ih =>
    exact fun s' hs' => ⟨hok w s' hp.1 (hI s s' hs hs'),
      fun n s'' hw => ih _ (hp.2 _) hI (hstep w s' n s'' hw (hI s s' hs hs')),
      fun e => ih _ (hp.2 _) hI (hI s s' hs hs')⟩
  | block p k ihp ih =>
    refine fun s' hs' => ⟨among_mono (ihp hp.1 (fun s₁ s₂ h h' => h' ▸ h) (hI s s' hs hs'))
      fun b s'' hb => ih _ (hp.2 _) hI hb, fun e => ih _ (hp.2 _) hI (hI s s' hs hs')⟩

end Rules

/-! ## One turn -/

section Turns

variable {R : σ → σ → Prop} {Q : α → σ → Prop} {s : σ}

/-- A program alone on the store: its statements are `ok` and it ends in `Q`. -/
theorem among_alone {p : Prog σ ω ε α} (h : p.among ap ok Eq Q s) :
    (∀ x ∈ p.trace ap s, ok x.1 x.2) ∧ ∀ a s', p.run ap s = (.ok a, s') → Q a s' := by
  induction p generalizing s with
  | pure a =>
    refine ⟨by simp [trace], fun a' s' hrun => ?_⟩
    obtain ⟨ha, hs⟩ := Prod.mk.inj hrun
    exact Except.ok.inj ha ▸ h s' hs
  | fail e => exact ⟨by simp [trace], fun a' s' hrun => by cases hrun⟩
  | read k ih => exact ih s (h s rfl)
  | write w k ih =>
    obtain ⟨hok, hsucceeds, hfails⟩ := h s rfl
    simp only [trace, run]
    cases hw : ap w s with
    | ok r =>
      obtain ⟨hrest, hend⟩ := ih _ (hsucceeds r.1 r.2 hw)
      refine ⟨fun x hx => ?_, hend⟩
      rcases List.mem_cons.mp hx with rfl | hx
      · exact hok
      · exact hrest x hx
    | error e => exact ih _ (hfails e)
  | block p k ihp ih =>
    obtain ⟨hin, hfails⟩ := h s rfl
    obtain ⟨htrace, hend⟩ := ihp hin
    simp only [trace, run]
    rcases hrun : p.run ap s with ⟨e | b, s'⟩
    · exact ih _ (hfails e)
    · obtain ⟨hrest, hend'⟩ := ih _ (hend b s' hrun)
      refine ⟨fun x hx => ?_, hend'⟩
      exact (List.mem_append.mp hx).elim (htrace x) (hrest x)

/-- A turn commits statements that are `ok` and leaves a program that goes on as well. -/
theorem among_advance {p : Prog σ ω ε α} (hrefl : ∀ s, R s s) (h : p.among ap ok R Q s) :
    (∀ x ∈ p.turn ap s, ok x.1 x.2) ∧
      (p.advance ap s).1.among ap ok R Q (p.advance ap s).2 := by
  cases p with
  | pure a => exact ⟨by simp [turn], h⟩
  | fail e => exact ⟨by simp [turn], trivial⟩
  | read k => exact ⟨by simp [turn], h s (hrefl s)⟩
  | write w k =>
    obtain ⟨hok, hsucceeds, hfails⟩ := h s (hrefl s)
    simp only [turn, Prog.advance, step]
    cases hw : ap w s with
    | ok r => exact ⟨by simpa using hok, hsucceeds r.1 r.2 hw⟩
    | error e => exact ⟨by simp, hfails e⟩
  | block p k =>
    obtain ⟨hin, hfails⟩ := h s (hrefl s)
    obtain ⟨htrace, hend⟩ := among_alone hin
    simp only [turn, Prog.advance, step]
    rcases hrun : p.run ap s with ⟨e | b, s'⟩
    · exact ⟨by simp, hfails e⟩
    · exact ⟨htrace, hend b s' hrun⟩

/-- Whatever every statement does is what a turn does. -/
theorem advance_rel {p : Prog σ ω ε α} (hrefl : ∀ s, R s s)
    (htrans : ∀ s₁ s₂ s₃, R s₁ s₂ → R s₂ s₃ → R s₁ s₃)
    (hw : ∀ w s n s', ap w s = .ok (n, s') → R s s') (s : σ) : R s (p.advance ap s).2 := by
  cases hstep : p.step ap s with
  | none =>
    rw [Prog.advance, hstep]
    exact hrefl s
  | some r =>
    rw [Prog.advance, hstep]
    exact step_of_turn (I := R s) (C := fun _ _ => True)
      (fun w s₁ n s₂ _ h₁ hexec => htrans _ _ _ h₁ (hw w s₁ n s₂ hexec)) (fun _ _ => trivial)
      hstep (hrefl s)

/-- What one turn of an `ok` program keeps. -/
theorem among_keeps {p : Prog σ ω ε α} {I : σ → Prop} (hrefl : ∀ s, R s s)
    (h : p.among ap ok R Q s)
    (hstep : ∀ w s n s', ok s w → I s → ap w s = .ok (n, s') → I s') (hs : I s) :
    I (p.advance ap s).2 := by
  cases hadv : p.step ap s with
  | none =>
    rw [Prog.advance, hadv]
    exact hs
  | some r =>
    rw [Prog.advance, hadv]
    exact step_of_turn hstep (among_advance hrefl h).1 hadv hs

end Turns

/-! ## Any number of programs -/

section Pool

variable {R : σ → σ → Prop} {oks : Nat → σ → ω → Prop} {Q : Nat → α → σ → Prop}

/-- The programs of the pool go on as they should. -/
def Pool.Among (ap : ω → σ → Except ε (Nat × σ)) (R : σ → σ → Prop) (oks : Nat → σ → ω → Prop)
    (Q : Nat → α → σ → Prop) (c : Pool σ ω ε α) : Prop :=
  ∀ (i : Nat) (p : Prog σ ω ε α), c.progs[i]? = some p → p.among ap (oks i) R (Q i) c.store

theorem Pool.Among.turn {c : Pool σ ω ε α} (hrefl : ∀ s, R s s)
    (htrans : ∀ s₁ s₂ s₃, R s₁ s₂ → R s₂ s₃ → R s₁ s₃)
    (hw : ∀ w s n s', ap w s = .ok (n, s') → R s s') (h : c.Among ap R oks Q) (i : Nat) :
    (c.turn ap i).Among ap R oks Q := by
  intro j q hq
  cases hp : c.progs[i]? with
  | none =>
    simp only [Pool.turn, hp] at hq ⊢
    exact h j q hq
  | some p =>
    have hi : i < c.progs.length := (List.getElem?_eq_some_iff.mp hp).1
    simp only [Pool.turn, hp] at hq ⊢
    by_cases hj : j = i
    · subst hj
      rw [List.getElem?_set_self hi] at hq
      obtain rfl := Option.some.inj hq
      exact (among_advance hrefl (h j p hp)).2
    · rw [List.getElem?_set_ne (Ne.symm hj)] at hq
      exact among_stable htrans (h j q hq) (advance_rel hrefl htrans hw _)

/-- Under every schedule. -/
theorem Pool.Among.runs {c : Pool σ ω ε α} (hrefl : ∀ s, R s s)
    (htrans : ∀ s₁ s₂ s₃, R s₁ s₂ → R s₂ s₃ → R s₁ s₃)
    (hw : ∀ w s n s', ap w s = .ok (n, s') → R s s') (h : c.Among ap R oks Q) (schedule : List Nat) :
    (c.runs ap schedule).Among ap R oks Q := by
  induction schedule generalizing c with
  | nil => exact h
  | cons i rest ih => exact ih (h.turn hrefl htrans hw i)

end Pool

end WalletToolbox.Lib.Prog
