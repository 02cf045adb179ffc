import WalletToolbox.Lib.Prog

/-! # Two programs on one store

A schedule says whose turn is next.
A turn is one read, one statement or one whole block; a program that is over does nothing on its
turn. -/

namespace WalletToolbox.Lib.Prog

variable {σ ω ε α β : Type} {ap : ω → σ → Except ε (Nat × σ)}

/-- One turn of a program. -/
def advance (ap : ω → σ → Except ε (Nat × σ)) (p : Prog σ ω ε α) (s : σ) : Prog σ ω ε α × σ :=
  (p.step ap s).getD (p, s)

/-- A number of turns in a row. -/
def turns (ap : ω → σ → Except ε (Nat × σ)) : Nat → Prog σ ω ε α → σ → Prog σ ω ε α × σ
  | 0, p, s => (p, s)
  | n + 1, p, s => turns ap n (p.advance ap s).1 (p.advance ap s).2

/-- The two programs and the store after a schedule; `true` is a turn of the first program. -/
def interleave (ap : ω → σ → Except ε (Nat × σ)) :
    List Bool → Prog σ ω ε α → Prog σ ω ε β → σ → Prog σ ω ε α × Prog σ ω ε β × σ
  | [], p, q, s => (p, q, s)
  | true :: rest, p, q, s => interleave ap rest (p.advance ap s).1 q (p.advance ap s).2
  | false :: rest, p, q, s => interleave ap rest p (q.advance ap s).1 (q.advance ap s).2

/-! ## Turns of one program -/

@[simp] theorem turns_pure (n : Nat) (a : α) (s : σ) :
    (pure a : Prog σ ω ε α).turns ap n s = (pure a, s) := by
  induction n with
  | zero => rfl
  | succ n ih => exact ih

@[simp] theorem turns_fail (n : Nat) (e : ε) (s : σ) :
    (fail e : Prog σ ω ε α).turns ap n s = (fail e, s) := by
  induction n with
  | zero => rfl
  | succ n ih => exact ih

theorem turns_read (n : Nat) (k : σ → Prog σ ω ε α) (s : σ) :
    (read k).turns ap (n + 1) s = (k s).turns ap n s := rfl

theorem turns_block_ok {n : Nat} {p : Prog σ ω ε β} {k : Except ε β → Prog σ ω ε α} {s s' : σ}
    {b : β} (h : p.run ap s = (.ok b, s')) :
    (block p k).turns ap (n + 1) s = (k (.ok b)).turns ap n s' := by
  simp only [turns, advance, step, h, Option.getD_some]

theorem turns_block_error {n : Nat} {p : Prog σ ω ε β} {k : Except ε β → Prog σ ω ε α} {s s' : σ}
    {e : ε} (h : p.run ap s = (.error e, s')) :
    (block p k).turns ap (n + 1) s = (k (.error e)).turns ap n s := by
  simp only [turns, advance, step, h, Option.getD_some]

/-- The turns that a program needs when it is alone. -/
def length (ap : ω → σ → Except ε (Nat × σ)) {α : Type} : Prog σ ω ε α → σ → Nat
  | .pure _, _ => 0
  | .fail _, _ => 0
  | .read k, s => (k s).length ap s + 1
  | .write w k, s =>
    match ap w s with
    | .ok (n, s') => (k (.ok n)).length ap s' + 1
    | .error e => (k (.error e)).length ap s + 1
  | .block p k, s =>
    match p.run ap s with
    | (.ok b, s') => (k (.ok b)).length ap s' + 1
    | (.error e, _) => (k (.error e)).length ap s + 1

/-- A program has ended well after some turns exactly when it ends well alone and needs no more. -/
theorem turns_eq_pure {n : Nat} {p : Prog σ ω ε α} {s s' : σ} {a : α} :
    p.turns ap n s = (pure a, s') ↔ p.run ap s = (.ok a, s') ∧ p.length ap s ≤ n := by
  induction p generalizing n s with
  | pure b => simp [run, length]
  | fail e => simp [run, length]
  | read k ih =>
    cases n with
    | zero => simp [turns, length]
    | succ n => simp only [turns_read, ih, run, length, Nat.add_le_add_iff_right]
  | write w k ih =>
    cases n with
    | zero =>
      simp only [turns, Prod.mk.injEq, reduceCtorEq, false_and, false_iff, length]
      cases ap w s <;> simp
    | succ n =>
      simp only [turns, advance, step, run, length]
      cases ap w s <;> simp only [Option.getD_some, ih, Nat.add_le_add_iff_right]
  | block q k _ ih =>
    cases n with
    | zero =>
      simp only [turns, Prod.mk.injEq, reduceCtorEq, false_and, false_iff, length]
      rcases q.run ap s with ⟨_ | b, s₁⟩ <;> simp
    | succ n =>
      simp only [turns, advance, step, run, length]
      rcases q.run ap s with ⟨_ | b, s₁⟩ <;>
        simp only [Option.getD_some, ih, Nat.add_le_add_iff_right]

/-! ## A program beside a single block -/

/-- The turns of the first program before the second one gets its first. -/
def before (schedule : List Bool) : Nat :=
  (schedule.takeWhile id).length

/-- The turns of the first program after the first turn of the second. -/
def after (schedule : List Bool) : Nat :=
  (schedule.dropWhile id).count true

/-- When the second program is over, what is left is turns of the first. -/
theorem interleave_over {schedule : List Bool} {p : Prog σ ω ε α} {q : Prog σ ω ε β} {s : σ}
    (hq : ∀ s, q.step ap s = none) :
    interleave ap schedule p q s =
      ((p.turns ap (schedule.count true) s).1, q, (p.turns ap (schedule.count true) s).2) := by
  induction schedule generalizing p s with
  | nil => rfl
  | cons turn rest ih =>
    cases turn with
    | true =>
      rw [List.count_cons_self]
      exact ih
    | false =>
      simp only [interleave, advance, hq, Option.getD_none]
      rw [ih, List.count_cons_of_ne (by decide)]

/-- A block beside a program runs as a whole between two turns of it. -/
theorem interleave_atomically {schedule : List Bool} {p : Prog σ ω ε α} {q : Prog σ ω ε β} {s s' : σ}
    {a : α} {b : β} :
    interleave ap schedule p (atomically q) s = (pure a, pure b, s') ↔
      false ∈ schedule ∧ ∃ s₂,
        q.run ap (p.turns ap (before schedule) s).2 = (.ok b, s₂) ∧
          (p.turns ap (before schedule) s).1.turns ap (after schedule) s₂ = (pure a, s') := by
  induction schedule generalizing p s with
  | nil => simp [interleave, atomically]
  | cons turn rest ih =>
    cases turn with
    | true =>
      simp only [interleave, ih, List.mem_cons, Bool.false_eq_true, false_or]
      exact Iff.rfl
    | false =>
      rcases hrun : q.run ap s with ⟨e | c, s₂⟩
      · simp only [interleave, advance, atomically, step, hrun, Option.getD_some]
        rw [interleave_over fun _ => rfl]
        simp [ofExcept, before, turns, hrun]
      · simp only [interleave, advance, atomically, step, hrun, Option.getD_some]
        rw [interleave_over fun _ => rfl]
        simp only [ofExcept, before, after, List.takeWhile, id, List.dropWhile, turns, List.length_nil,
          hrun, Prod.mk.injEq, Except.ok.injEq, List.mem_cons, true_or, true_and, pure.injEq,
          List.count_cons_of_ne (show false ≠ true by decide)]
        constructor
        · rintro ⟨hp, rfl, hs⟩
          exact ⟨s₂, ⟨rfl, rfl⟩, Prod.ext hp hs⟩
        · rintro ⟨_, ⟨rfl, rfl⟩, hp⟩
          rw [hp]
          exact ⟨rfl, rfl, rfl⟩

end WalletToolbox.Lib.Prog
