import Mathlib.Tactic.Common
import Mathlib.Logic.Relation

/-! # Programs over a transactional store

A program reads the store, issues write statements and runs blocks.
A statement outside a block commits on its own; a block commits as a whole or not at all.
`run` is the program alone on the store, `step` is what one turn of an interleaved run does:
one read, one statement or one whole block.
The statements `ω`, the store `σ` and the errors `ε` are parameters, and so is the meaning
`exec` of a statement. -/

namespace WalletToolbox.Lib

/-- A program that ends with a value of type `α` or with an error. A statement answers with a
count or a key, and its failure is handed to the continuation. -/
inductive Prog (σ ω ε : Type) : Type → Type 1 where
  | pure {α : Type} (a : α) : Prog σ ω ε α
  | fail {α : Type} (e : ε) : Prog σ ω ε α
  | read {α : Type} (k : σ → Prog σ ω ε α) : Prog σ ω ε α
  | write {α : Type} (w : ω) (k : Except ε Nat → Prog σ ω ε α) : Prog σ ω ε α
  | block {α β : Type} (p : Prog σ ω ε β) (k : Except ε β → Prog σ ω ε α) : Prog σ ω ε α

namespace Prog

variable {σ ω ε α β γ : Type}

/-- Sequencing; an error ends the program. -/
def bind {α : Type} : Prog σ ω ε α → (α → Prog σ ω ε β) → Prog σ ω ε β
  | .pure a, f => f a
  | .fail e, _ => .fail e
  | .read k, f => .read fun s => (k s).bind f
  | .write w k, f => .write w fun r => (k r).bind f
  | .block p k, f => .block p fun r => (k r).bind f

instance : Monad (Prog σ ω ε) where
  pure := Prog.pure
  bind := Prog.bind

/-- Turn the error of a program into a value, as a caller that does not propagate it does. -/
def attempt {α : Type} : Prog σ ω ε α → Prog σ ω ε (Except ε α)
  | .pure a => .pure (.ok a)
  | .fail e => .pure (.error e)
  | .read k => .read fun s => (k s).attempt
  | .write w k => .write w fun r => (k r).attempt
  | .block p k => .block p fun r => (k r).attempt

/-- The program that is over with the given outcome. -/
def ofExcept : Except ε α → Prog σ ω ε α
  | .ok a => .pure a
  | .error e => .fail e

/-- Read a value off the store. -/
def ask (f : σ → α) : Prog σ ω ε α :=
  .read fun s => .pure (f s)

/-- Issue one statement and propagate its failure. -/
def exec (w : ω) : Prog σ ω ε Nat :=
  .write w ofExcept

/-- Run a program between begin and commit; its error rolls everything back. -/
def atomically (p : Prog σ ω ε α) : Prog σ ω ε α :=
  .block p ofExcept

instance : LawfulMonad (Prog σ ω ε) := LawfulMonad.mk' _
  (fun p => by
    show p.bind _ = p
    induction p with
    | pure a => rfl
    | fail e => rfl
    | read k ih => exact congrArg Prog.read (funext ih)
    | write w k ih => exact congrArg (Prog.write w) (funext ih)
    | block p k _ ih => exact congrArg (Prog.block p) (funext ih))
  (fun _ _ => rfl)
  (fun p f g => by
    show (p.bind f).bind g = p.bind fun a => (f a).bind g
    induction p with
    | pure a => rfl
    | fail e => rfl
    | read k ih => exact congrArg Prog.read (funext fun s => ih s f)
    | write w k ih => exact congrArg (Prog.write w) (funext fun r => ih r f)
    | block p k _ ih => exact congrArg (Prog.block p) (funext fun r => ih r f))

/-! ## A program alone on the store -/

/-- The outcome and the store a program leaves when nothing else runs. -/
def run (ap : ω → σ → Except ε (Nat × σ)) {α : Type} : Prog σ ω ε α → σ → Except ε α × σ
  | .pure a, s => (.ok a, s)
  | .fail e, s => (.error e, s)
  | .read k, s => (k s).run ap s
  | .write w k, s =>
    match ap w s with
    | .ok (n, s') => (k (.ok n)).run ap s'
    | .error e => (k (.error e)).run ap s
  | .block p k, s =>
    match p.run ap s with
    | (.ok b, s') => (k (.ok b)).run ap s'
    | (.error e, _) => (k (.error e)).run ap s

/-- The successful statements of a run, each with the store it found. -/
def trace (ap : ω → σ → Except ε (Nat × σ)) {α : Type} : Prog σ ω ε α → σ → List (σ × ω)
  | .pure _, _ => []
  | .fail _, _ => []
  | .read k, s => (k s).trace ap s
  | .write w k, s =>
    match ap w s with
    | .ok (n, s') => (s, w) :: (k (.ok n)).trace ap s'
    | .error e => (k (.error e)).trace ap s
  | .block p k, s =>
    match p.run ap s with
    | (.ok b, s') => p.trace ap s ++ (k (.ok b)).trace ap s'
    | (.error e, _) => (k (.error e)).trace ap s

section Run

variable {ap : ω → σ → Except ε (Nat × σ)}

@[simp] theorem run_ask (f : σ → α) (s : σ) :
    (ask f : Prog σ ω ε α).run ap s = (.ok (f s), s) := rfl

theorem run_ofExcept (r : Except ε α) (s : σ) : (ofExcept r : Prog σ ω ε α).run ap s = (r, s) := by
  cases r <;> rfl

theorem run_exec_ok {w : ω} {s s' : σ} {n : Nat} (h : ap w s = .ok (n, s')) :
    (exec w : Prog σ ω ε Nat).run ap s = (.ok n, s') := by
  simp only [exec, run, h, run_ofExcept]

theorem run_exec_error {w : ω} {s : σ} {e : ε} (h : ap w s = .error e) :
    (exec w : Prog σ ω ε Nat).run ap s = (.error e, s) := by
  simp only [exec, run, h, run_ofExcept]

/-- A sequence runs its first part, and the second part only when the first succeeded. -/
theorem run_bind (p : Prog σ ω ε α) (f : α → Prog σ ω ε β) (s : σ) :
    (p >>= f).run ap s =
      match p.run ap s with
      | (.ok a, s') => (f a).run ap s'
      | (.error e, s') => (.error e, s') := by
  show (p.bind f).run ap s = _
  induction p generalizing s with
  | pure a => rfl
  | fail e => rfl
  | read k ih => exact ih s f s
  | write w k ih =>
    simp only [bind, run]
    cases ap w s with
    | ok r => exact ih _ f _
    | error e => exact ih _ f s
  | block p k _ ih =>
    simp only [bind, run]
    rcases p.run ap s with ⟨_ | b, s'⟩
    · exact ih _ f s
    · exact ih _ f s'

theorem run_bind_of_ok {p : Prog σ ω ε α} {f : α → Prog σ ω ε β} {s s' : σ} {a : α}
    (h : p.run ap s = (.ok a, s')) : (p >>= f).run ap s = (f a).run ap s' := by
  rw [run_bind, h]

theorem run_bind_of_error {p : Prog σ ω ε α} {f : α → Prog σ ω ε β} {s s' : σ} {e : ε}
    (h : p.run ap s = (.error e, s')) : (p >>= f).run ap s = (.error e, s') := by
  rw [run_bind, h]

/-- A sequence that succeeds is two parts that succeed. -/
theorem run_bind_ok {p : Prog σ ω ε α} {f : α → Prog σ ω ε β} {s s' : σ} {b : β}
    (h : (p >>= f).run ap s = (.ok b, s')) :
    ∃ a s₁, p.run ap s = (.ok a, s₁) ∧ (f a).run ap s₁ = (.ok b, s') := by
  rw [run_bind] at h
  rcases hp : p.run ap s with ⟨_ | a, s₁⟩
  · simp [hp] at h
  · exact ⟨a, s₁, rfl, by simpa [hp] using h⟩

/-- The outcome of a run that is known to succeed. -/
theorem run_of_isOk {p : Prog σ ω ε α} {s : σ} (h : (p.run ap s).1.isOk = true) :
    ∃ a, p.run ap s = (.ok a, (p.run ap s).2) := by
  rcases hp : p.run ap s with ⟨_ | a, s'⟩
  · simp [hp, Except.isOk, Except.toBool] at h
  · exact ⟨a, rfl⟩

theorem run_attempt (p : Prog σ ω ε α) (s : σ) :
    p.attempt.run ap s = (.ok (p.run ap s).1, (p.run ap s).2) := by
  induction p generalizing s with
  | pure a => rfl
  | fail e => rfl
  | read k ih => exact ih s s
  | write w k ih =>
    simp only [attempt, run]
    cases ap w s with
    | ok r => exact ih _ _
    | error e => exact ih _ s
  | block p k _ ih =>
    simp only [attempt, run]
    rcases p.run ap s with ⟨_ | b, s'⟩
    · exact ih _ s
    · exact ih _ s'

/-- A block keeps its effect when it succeeds and has none when it fails. -/
theorem run_atomically (p : Prog σ ω ε α) (s : σ) :
    (atomically p).run ap s =
      match p.run ap s with
      | (.ok a, s') => (.ok a, s')
      | (.error e, _) => (.error e, s) := by
  simp only [atomically, run]
  rcases p.run ap s with ⟨_ | a, s'⟩ <;> simp only [run_ofExcept]

theorem run_atomically_ok {p : Prog σ ω ε α} {s s' : σ} {a : α} :
    (atomically p).run ap s = (.ok a, s') ↔ p.run ap s = (.ok a, s') := by
  rw [run_atomically]
  rcases p.run ap s with ⟨_ | b, s₁⟩ <;> simp

end Run

/-! ## Statements of a class

When the statements a program can issue are all of one class, whatever it reads, an
invariant that the class keeps is kept by the program. -/

/-- Every statement the program can issue, on any answers, belongs to `K`. -/
def Emits (K : ω → Prop) {α : Type} : Prog σ ω ε α → Prop
  | .pure _ => True
  | .fail _ => True
  | .read k => ∀ s, (k s).Emits K
  | .write w k => K w ∧ ∀ r, (k r).Emits K
  | .block p k => p.Emits K ∧ ∀ r, (k r).Emits K

namespace Emits

variable {K : ω → Prop}

theorem pure (a : α) : (Pure.pure a : Prog σ ω ε α).Emits K := trivial

theorem fail (e : ε) : (Prog.fail e : Prog σ ω ε α).Emits K := trivial

theorem ofExcept (r : Except ε α) : (Prog.ofExcept r : Prog σ ω ε α).Emits K := by
  cases r <;> trivial

theorem ask (f : σ → α) : (Prog.ask f : Prog σ ω ε α).Emits K := fun _ => trivial

theorem exec {w : ω} (h : K w) : (Prog.exec w : Prog σ ω ε Nat).Emits K :=
  ⟨h, ofExcept⟩

theorem atomically {p : Prog σ ω ε α} (h : p.Emits K) : (Prog.atomically p).Emits K :=
  ⟨h, ofExcept⟩

theorem bind {p : Prog σ ω ε α} {f : α → Prog σ ω ε β} (hp : p.Emits K)
    (hf : ∀ a, (f a).Emits K) : (p >>= f).Emits K := by
  show (p.bind f).Emits K
  induction p with
  | pure a => exact hf a
  | fail e => trivial
  | read k ih => exact fun s => ih s (hp s) hf
  | write w k ih => exact ⟨hp.1, fun r => ih r (hp.2 r) hf⟩
  | block p k _ ih => exact ⟨hp.1, fun r => ih r (hp.2 r) hf⟩

theorem attempt {p : Prog σ ω ε α} (hp : p.Emits K) : p.attempt.Emits K := by
  induction p with
  | pure a => trivial
  | fail e => trivial
  | read k ih => exact fun s => ih s (hp s)
  | write w k ih => exact ⟨hp.1, fun r => ih r (hp.2 r)⟩
  | block p k _ ih => exact ⟨hp.1, fun r => ih r (hp.2 r)⟩

theorem mono {K' : ω → Prop} (hK : ∀ w, K w → K' w) {p : Prog σ ω ε α} (hp : p.Emits K) :
    p.Emits K' := by
  induction p with
  | pure a => trivial
  | fail e => trivial
  | read k ih => exact fun s => ih s (hp s)
  | write w k ih => exact ⟨hK w hp.1, fun r => ih r (hp.2 r)⟩
  | block p k ihp ih => exact ⟨ihp hp.1, fun r => ih r (hp.2 r)⟩

theorem forM {xs : List γ} {f : γ → Prog σ ω ε PUnit} (hf : ∀ x ∈ xs, (f x).Emits K) :
    (ForM.forM xs f).Emits K := by
  induction xs with
  | nil => trivial
  | cons x xs ih =>
    rw [List.forM_cons]
    exact bind (hf x (by simp)) fun _ => ih fun y hy => hf y (by simp [hy])

theorem foldlM {xs : List γ} {f : α → γ → Prog σ ω ε α} {a : α}
    (hf : ∀ a, ∀ x ∈ xs, (f a x).Emits K) : (xs.foldlM f a).Emits K := by
  induction xs generalizing a with
  | nil => trivial
  | cons x xs ih =>
    rw [List.foldlM_cons]
    exact bind (hf a x (by simp)) fun _ => ih fun b y hy => hf b y (by simp [hy])

/-- An invariant that every statement of the class keeps is kept by the run. -/
theorem run {ap : ω → σ → Except ε (Nat × σ)} {I : σ → Prop}
    (step : ∀ w s n s', K w → I s → ap w s = .ok (n, s') → I s')
    {p : Prog σ ω ε α} (hp : p.Emits K) {s : σ} (hs : I s) : I (p.run ap s).2 := by
  induction p generalizing s with
  | pure a => exact hs
  | fail e => exact hs
  | read k ih => exact ih s (hp s) hs
  | write w k ih =>
    simp only [Prog.run]
    cases hw : ap w s with
    | ok r => exact ih _ (hp.2 _) (step w s r.1 r.2 hp.1 hs hw)
    | error e => exact ih _ (hp.2 _) hs
  | block p k ihp ih =>
    have hb := ihp hp.1 hs
    simp only [Prog.run]
    rcases hr : p.run ap s with ⟨_ | b, s'⟩
    · exact ih _ (hp.2 _) hs
    · rw [hr] at hb
      exact ih _ (hp.2 _) hb

end Emits

/-! ## One turn of an interleaved run -/

/-- What the program does when it gets its turn, or `none` when it is over. -/
def step (ap : ω → σ → Except ε (Nat × σ)) {α : Type} :
    Prog σ ω ε α → σ → Option (Prog σ ω ε α × σ)
  | .pure _, _ => none
  | .fail _, _ => none
  | .read k, s => some (k s, s)
  | .write w k, s =>
    match ap w s with
    | .ok (n, s') => some (k (.ok n), s')
    | .error e => some (k (.error e), s)
  | .block p k, s =>
    match p.run ap s with
    | (.ok b, s') => some (k (.ok b), s')
    | (.error e, _) => some (k (.error e), s)

/-- The statements that one turn commits, each with the store it found. -/
def turn (ap : ω → σ → Except ε (Nat × σ)) {α : Type} : Prog σ ω ε α → σ → List (σ × ω)
  | .pure _, _ => []
  | .fail _, _ => []
  | .read _, _ => []
  | .write w _, s =>
    match ap w s with
    | .ok _ => [(s, w)]
    | .error _ => []
  | .block p _, s =>
    match p.run ap s with
    | (.ok _, _) => p.trace ap s
    | (.error _, _) => []

/-- An invariant kept by every statement that meets a condition at the store it finds is kept
by a run whose statements all meet it. -/
theorem run_of_trace {ap : ω → σ → Except ε (Nat × σ)} {I : σ → Prop} {C : σ → ω → Prop}
    (hstep : ∀ w s n s', C s w → I s → ap w s = .ok (n, s') → I s')
    {p : Prog σ ω ε α} {s : σ} (hp : ∀ x ∈ p.trace ap s, C x.1 x.2) (hs : I s) :
    I (p.run ap s).2 := by
  induction p generalizing s with
  | pure a => exact hs
  | fail e => exact hs
  | read k ih => exact ih s hp hs
  | write w k ih =>
    simp only [run, trace] at hp ⊢
    cases hw : ap w s with
    | ok r =>
      rw [hw] at hp
      exact ih _ (fun x hx => hp x (by simp [hx]))
        (hstep w s r.1 r.2 (hp (s, w) (by simp)) hs hw)
    | error e =>
      rw [hw] at hp
      exact ih _ hp hs
  | block p k ihp ih =>
    simp only [run, trace] at hp ⊢
    rcases hr : p.run ap s with ⟨_ | b, s'⟩
    · rw [hr] at hp
      exact ih _ hp hs
    · rw [hr] at hp
      have hb := ihp (s := s) (fun x hx => hp x (by simp [hx])) hs
      rw [hr] at hb
      exact ih _ (fun x hx => hp x (by simp [hx])) hb

/-- One turn keeps an invariant under the same condition. -/
theorem step_of_turn {ap : ω → σ → Except ε (Nat × σ)} {I : σ → Prop} {C : σ → ω → Prop}
    (hstep : ∀ w s n s', C s w → I s → ap w s = .ok (n, s') → I s')
    {p p' : Prog σ ω ε α} {s s' : σ} (hp : ∀ x ∈ p.turn ap s, C x.1 x.2)
    (h : p.step ap s = some (p', s')) (hs : I s) : I s' := by
  cases p with
  | pure a => cases h
  | fail e => cases h
  | read k =>
    simp only [step, Option.some.injEq, Prod.mk.injEq] at h
    exact h.2 ▸ hs
  | write w k =>
    simp only [step, turn] at h hp
    cases hw : ap w s with
    | ok r =>
      simp only [hw, Option.some.injEq, Prod.mk.injEq] at h hp
      exact h.2 ▸ hstep w s r.1 r.2 (hp (s, w) (by simp)) hs hw
    | error e =>
      simp only [hw, Option.some.injEq, Prod.mk.injEq] at h
      exact h.2 ▸ hs
  | block p k =>
    simp only [step, turn] at h hp
    rcases hr : p.run ap s with ⟨_ | b, s₁⟩
    · simp only [hr, Option.some.injEq, Prod.mk.injEq] at h
      exact h.2 ▸ hs
    · simp only [hr, Option.some.injEq, Prod.mk.injEq] at h hp
      have hb := run_of_trace hstep hp hs
      rw [hr] at hb
      exact h.2 ▸ hb

end Prog

end WalletToolbox.Lib
