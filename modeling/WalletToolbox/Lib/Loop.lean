import Mathlib.Tactic.Common

/-! # Loops

A loop is given by the state that one more round leaves, or `none` where the loop stops.
`Ends` relates the state that a loop starts from to the one that it stops in; a loop that never stops
is related to nothing.
`follow` runs a loop for a bounded number of rounds, and comes to its end when every round lowers a
measure that the bound respects. -/

namespace WalletToolbox.Lib

section Loop

variable {σ : Type} {next : σ → Option σ} {s t t' : σ}

/-- The loop stops, and in which state. -/
inductive Ends (next : σ → Option σ) : σ → σ → Prop
  | rest {s : σ} (h : next s = none) : Ends next s s
  | round {s s' t : σ} (h : next s = some s') (ends : Ends next s' t) : Ends next s t

namespace Ends

theorem stops (h : Ends next s t) : next t = none := by
  induction h with
  | rest h => exact h
  | round _ _ ih => exact ih

/-- What every round keeps holds at the end. -/
theorem inv {I : σ → Prop} (hround : ∀ s s', I s → next s = some s' → I s') (h : Ends next s t)
    (hs : I s) : I t := by
  induction h with
  | rest _ => exact hs
  | round h _ ih => exact ih (hround _ _ hs h)

/-- A loop that has a round to run ends where that round's state ends. -/
theorem of_round {s' : σ} (h : Ends next s t) (hround : next s = some s') : Ends next s' t := by
  cases h with
  | rest h =>
    rw [h] at hround
    cases hround
  | round h ends =>
    rw [h] at hround
    cases hround
    exact ends

end Ends

/-- At most the given number of rounds. -/
def follow (next : σ → Option σ) : Nat → σ → σ
  | 0, s => s
  | bound + 1, s =>
    match next s with
    | none => s
    | some s' => follow next bound s'

theorem follow_none (h : next s = none) {bound : Nat} : follow next bound s = s := by
  cases bound with
  | zero => rfl
  | succ bound => rw [follow, h]

theorem follow_some {s' : σ} (h : next s = some s') {bound : Nat} :
    follow next (bound + 1) s = follow next bound s' := by
  rw [follow, h]

/-- A loop whose rounds lower a measure is followed to its end. -/
theorem ends_follow (measure : σ → Nat) (hdown : ∀ s s', next s = some s' → measure s' < measure s)
    {bound : Nat} (h : measure s ≤ bound) : Ends next s (follow next bound s) := by
  induction bound generalizing s with
  | zero =>
    cases hnext : next s with
    | none => exact .rest hnext
    | some s' => exact absurd (hdown s s' hnext) (by omega)
  | succ bound ih =>
    cases hnext : next s with
    | none =>
      rw [follow_none hnext]
      exact .rest hnext
    | some s' =>
      rw [follow_some hnext]
      have hlower := hdown s s' hnext
      exact .round hnext (ih (by omega))

end Loop

end WalletToolbox.Lib
