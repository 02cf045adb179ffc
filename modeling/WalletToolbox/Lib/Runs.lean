import Mathlib.Tactic.Common

/-! # Runs of a system

A system starts in one state and takes one action after another.
`Reaches` collects the states of the runs whose actions all meet a condition at the state they
find; `inv` is the invariant rule. -/

namespace WalletToolbox.Lib

/-- A state machine: which actions a state allows, and what each of them leaves. -/
structure System (σ α : Type) where
  init : σ
  Enabled : σ → α → Prop
  next : α → σ → σ

namespace System

variable {σ α : Type} {m : System σ α} {ok ok' : σ → α → Prop}

/-- The states of the runs whose actions all meet the condition. -/
inductive Reaches (m : System σ α) (ok : σ → α → Prop) : σ → Prop
  | init : Reaches m ok m.init
  | step {s : σ} {a : α} (h : Reaches m ok s) (enabled : m.Enabled s a) (meets : ok s a) :
      Reaches m ok (m.next a s)

/-- What holds at the start and is kept by every action of a run holds in every state of it. -/
theorem Reaches.inv {I : σ → Prop} (hinit : I m.init)
    (hstep : ∀ s a, I s → m.Enabled s a → ok s a → I (m.next a s)) {s : σ} (h : m.Reaches ok s) :
    I s := by
  induction h with
  | init => exact hinit
  | step _ enabled meets ih => exact hstep _ _ ih enabled meets

theorem Reaches.mono (hok : ∀ s a, ok s a → ok' s a) {s : σ} (h : m.Reaches ok s) :
    m.Reaches ok' s := by
  induction h with
  | init => exact .init
  | step _ enabled meets ih => exact .step ih enabled (hok _ _ meets)

/-- The state after a list of actions. -/
def after (m : System σ α) (s : σ) (actions : List α) : σ :=
  actions.foldl (fun s a => m.next a s) s

/-- Every action of the list is enabled and meets the condition when its turn comes. -/
def Allows (m : System σ α) (ok : σ → α → Prop) : σ → List α → Prop
  | _, [] => True
  | s, a :: rest => (m.Enabled s a ∧ ok s a) ∧ Allows m ok (m.next a s) rest

instance decidableAllows [∀ s a, Decidable (m.Enabled s a)] [∀ s a, Decidable (ok s a)] :
    ∀ s actions, Decidable (m.Allows ok s actions)
  | _, [] => isTrue trivial
  | s, a :: rest =>
    have := decidableAllows (m.next a s) rest
    inferInstanceAs (Decidable ((m.Enabled s a ∧ ok s a) ∧ m.Allows ok (m.next a s) rest))

theorem Reaches.after {s : σ} {actions : List α} (h : m.Reaches ok s)
    (hallows : m.Allows ok s actions) : m.Reaches ok (m.after s actions) := by
  induction actions generalizing s with
  | nil => exact h
  | cons a rest ih => exact ih (.step h hallows.1.1 hallows.1.2) hallows.2

/-- The runs from a given state. -/
def startingAt (m : System σ α) (s : σ) : System σ α := { m with init := s }

theorem Reaches.trans {s s' : σ} (h : m.Reaches ok s) (h' : (m.startingAt s).Reaches ok s') :
    m.Reaches ok s' := by
  induction h' with
  | init => exact h
  | step _ enabled meets ih => exact .step ih enabled meets

/-- The runs from a state that take the actions of a list. -/
theorem reaches_of_allows {s : σ} {actions : List α} (h : m.Allows ok s actions) :
    (m.startingAt s).Reaches ok (m.after s actions) := by
  have hallows : ∀ s' actions, m.Allows ok s' actions → (m.startingAt s).Allows ok s' actions := by
    intro s' actions
    induction actions generalizing s' with
    | nil => exact fun _ => trivial
    | cons a rest ih => exact fun h => ⟨h.1, ih _ h.2⟩
  exact Reaches.after (m := m.startingAt s) .init (hallows s actions h)

/-- One action from a state. -/
theorem startingAt_step {s : σ} {a : α} (enabled : m.Enabled s a) (meets : ok s a) :
    (m.startingAt s).Reaches ok (m.next a s) :=
  .step (m := m.startingAt s) .init enabled meets

end System

end WalletToolbox.Lib
