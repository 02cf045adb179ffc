import Mathlib.Data.Set.Finite.Basic
import Mathlib.Logic.Relation
import Mathlib.Tactic.Common

/-! # Depth-first exploration

A walk over a graph that is discovered on the way: entering a key changes the state of the walk and
tells the keys to go to next, or fails.
Keys are remembered when they are entered, before those behind them are, so a key may be skipped as
known while the walk is still below it.
The depth bounds the recursion and `none` says that it was not enough. -/

namespace WalletToolbox.Lib.Explore

variable {κ σ ε : Type} [BEq κ]

/-- The state of a walk and the keys it has entered. -/
structure Walk (κ σ : Type) where
  state : σ
  visited : List κ

/-- The keys that are not yet known, one after the other. -/
def each (visit : κ → Walk κ σ → Option (Except ε (Walk κ σ))) :
    List κ → Walk κ σ → Option (Except ε (Walk κ σ))
  | [], w => some (.ok w)
  | k :: rest, w =>
    if w.visited.contains k then each visit rest w
    else
      match visit k w with
      | some (.ok w) => each visit rest w
      | r => r

def explore (enter : κ → σ → Except ε (σ × List κ)) :
    Nat → κ → Walk κ σ → Option (Except ε (Walk κ σ))
  | 0, _, _ => none
  | depth + 1, k, w =>
    if w.visited.contains k then some (.ok w)
    else
      match enter k w.state with
      | .error e => some (.error e)
      | .ok (state, next) =>
        each (explore enter depth) next { state, visited := k :: w.visited }

/-- One key is entered. -/
inductive Step (enter : κ → σ → Except ε (σ × List κ)) (w : Walk κ σ) : Walk κ σ → Prop where
  | enter {k : κ} {state : σ} {next : List κ} : k ∉ w.visited →
      enter k w.state = .ok (state, next) → Step enter w { state, visited := k :: w.visited }

/-- A walk goes on by entering keys. -/
abbrev Leads (enter : κ → σ → Except ε (σ × List κ)) : Walk κ σ → Walk κ σ → Prop :=
  Relation.ReflTransGen (Step enter)

/-- All that lies behind the keys entered since `w` is known. -/
def Followed (next : κ → κ → Prop) (w w' : Walk κ σ) : Prop :=
  ∀ k ∈ w'.visited, k ∈ w.visited ∨ ∀ c, next k c → c ∈ w'.visited

variable {enter : κ → σ → Except ε (σ × List κ)} {w w' w'' : Walk κ σ} {k : κ} {keys : List κ}
  {next : κ → κ → Prop}

omit [BEq κ] in
theorem Leads.subset (h : Leads enter w w') : w.visited ⊆ w'.visited := by
  induction h with
  | refl => exact fun _ h => h
  | tail _ hstep ih =>
    cases hstep
    exact fun _ h => List.mem_cons_of_mem _ (ih h)

omit [BEq κ] in
/-- What every step keeps, the whole walk keeps. -/
theorem Leads.inv {I : Walk κ σ → Prop}
    (hstep : ∀ w k state next, I w → k ∉ w.visited → enter k w.state = .ok (state, next) →
      I { state, visited := k :: w.visited })
    (h : Leads enter w w') (hw : I w) : I w' := by
  induction h with
  | refl => exact hw
  | tail _ hlast ih =>
    cases hlast with
    | enter hnew henter => exact hstep _ _ _ _ ih hnew henter

omit [BEq κ] in
theorem Followed.trans (h : Followed next w w') (h' : Followed next w' w'')
    (hsub : w'.visited ⊆ w''.visited) : Followed next w w'' := by
  intro k hk
  rcases h' k hk with hk' | hnext
  · rcases h k hk' with hk | hnext
    · exact .inl hk
    · exact .inr fun c hc => hsub (hnext c hc)
  · exact .inr hnext

/-! ## What a walk has done when it returns -/

section Done

variable [LawfulBEq κ] {visit : κ → Walk κ σ → Option (Except ε (Walk κ σ))}

/-- What a walk to `keys` leaves: it got there by entering keys, and left nothing unfollowed. -/
structure Done (enter : κ → σ → Except ε (σ × List κ)) (next : κ → κ → Prop) (w : Walk κ σ)
    (keys : List κ) (w' : Walk κ σ) : Prop where
  leads : Leads enter w w'
  arrived : keys ⊆ w'.visited
  followed : Followed next w w'

omit [BEq κ] [LawfulBEq κ] in
theorem Done.nothing : Done enter next w [] w :=
  ⟨.refl, List.nil_subset _, fun _ hk => .inl hk⟩

omit [BEq κ] [LawfulBEq κ] in
theorem Done.cons (h : Done enter next w [k] w') (h' : Done enter next w' keys w'') :
    Done enter next w (k :: keys) w'' where
  leads := h.leads.trans h'.leads
  arrived := List.cons_subset.mpr
    ⟨h'.leads.subset (h.arrived (List.mem_singleton_self k)), h'.arrived⟩
  followed := h.followed.trans h'.followed h'.leads.subset

theorem each_done
    (hvisit : ∀ k w w', visit k w = some (.ok w') → Done enter next w [k] w')
    (h : each visit keys w = some (.ok w')) : Done enter next w keys w' := by
  induction keys generalizing w with
  | nil =>
    cases h
    exact .nothing
  | cons k rest ih =>
    unfold each at h
    by_cases hknown : w.visited.contains k
    · rw [if_pos hknown] at h
      have hk : k ∈ w.visited := by simpa using hknown
      exact Done.cons ⟨.refl, by simpa using hk, fun _ hk => .inl hk⟩ (ih h)
    · rw [if_neg hknown] at h
      split at h
      · exact (hvisit _ _ _ ‹_›).cons (ih h)
      · exact absurd h (by rename_i hne; exact fun heq => hne _ heq)

/-- Entering a key names all that lies behind it. -/
def Names (enter : κ → σ → Except ε (σ × List κ)) (next : κ → κ → Prop) : Prop :=
  ∀ k s s' keys, enter k s = .ok (s', keys) → ∀ c, next k c → c ∈ keys

theorem explore_done (hnames : Names enter next) {depth : Nat}
    (h : explore enter depth k w = some (.ok w')) : Done enter next w [k] w' := by
  induction depth generalizing k w w' with
  | zero => cases h
  | succ depth ih =>
    unfold explore at h
    by_cases hknown : w.visited.contains k
    · rw [if_pos hknown] at h
      cases h
      have hk : k ∈ w.visited := by simpa using hknown
      exact ⟨.refl, by simpa using hk, fun _ hk => .inl hk⟩
    · rw [if_neg hknown] at h
      have hnew : k ∉ w.visited := by simpa using hknown
      split at h
      · cases h
      next state keys henter =>
        have hdone : Done enter next { state, visited := k :: w.visited } keys w' :=
          each_done (fun _ _ _ h => ih h) h
        refine ⟨.head (.enter hnew henter) hdone.leads, ?_, ?_⟩
        · exact List.cons_subset.mpr
            ⟨hdone.leads.subset List.mem_cons_self, List.nil_subset _⟩
        · intro x hx
          rcases hdone.followed x hx with hx | hnext
          · rcases List.mem_cons.mp hx with rfl | hx
            · exact .inr fun c hc => hdone.arrived (hnames _ _ _ _ henter c hc)
            · exact .inl hx
          · exact .inr hnext

end Done

/-! ## The depth -/

theorem each_mono {visit visit' : κ → Walk κ σ → Option (Except ε (Walk κ σ))}
    (hvisit : ∀ k w r, visit k w = some r → visit' k w = some r) {r : Except ε (Walk κ σ)}
    (h : each visit keys w = some r) : each visit' keys w = some r := by
  induction keys generalizing w with
  | nil => exact h
  | cons k rest ih =>
    unfold each at h ⊢
    by_cases hknown : w.visited.contains k
    · rw [if_pos hknown] at h ⊢
      exact ih h
    · rw [if_neg hknown] at h ⊢
      cases hk : visit k w with
      | none =>
        rw [hk] at h
        cases h
      | some first =>
        rw [hvisit _ _ _ hk]
        rw [hk] at h
        cases first with
        | error e => exact h
        | ok w => exact ih h

/-- A walk that has returned returns the same with more depth. -/
theorem explore_mono {depth depth' : Nat} (hle : depth ≤ depth') {r : Except ε (Walk κ σ)}
    (h : explore enter depth k w = some r) : explore enter depth' k w = some r := by
  induction depth generalizing depth' k w r with
  | zero => cases h
  | succ depth ih =>
    obtain ⟨depth', rfl⟩ := Nat.exists_eq_add_of_lt (Nat.lt_of_succ_le hle)
    unfold explore at h ⊢
    by_cases hknown : w.visited.contains k
    · rw [if_pos hknown] at h ⊢
      exact h
    · rw [if_neg hknown] at h ⊢
      cases henter : enter k w.state with
      | error e =>
        rw [henter] at h
        exact h
      | ok entered =>
        rw [henter] at h
        exact each_mono (fun _ _ _ h => ih (by omega) h) h

section Ends

variable [LawfulBEq κ] {all : List κ}

/-- The keys that have not been entered. -/
def missing (all : List κ) (w : Walk κ σ) : Nat :=
  (all.filter fun k => !w.visited.contains k).length

theorem missing_le (hsub : w.visited ⊆ w'.visited) : missing all w' ≤ missing all w := by
  refine List.Sublist.length_le (List.monotone_filter_right all ?_)
  intro k hk
  simp only [Bool.not_eq_true', List.contains_eq_mem, decide_eq_false_iff_not] at hk ⊢
  exact fun hmem => hk (hsub hmem)

theorem missing_lt (hk : k ∈ all) (hnew : k ∉ w.visited) (state : σ) :
    missing all { state, visited := k :: w.visited } < missing all w := by
  obtain ⟨before, after, rfl⟩ := List.append_of_mem hk
  have hle : ∀ part : List κ, missing part { state, visited := k :: w.visited } ≤ missing part w :=
    fun _ => missing_le (List.subset_cons_self _ _)
  have hbefore := hle before
  have hafter := hle after
  simp only [missing, List.filter_append, List.filter_cons, List.length_append,
    List.contains_cons, beq_self_eq_true, Bool.true_or, Bool.not_true, Bool.false_eq_true, if_false]
    at hbefore hafter ⊢
  rw [if_pos (by simpa using hnew), List.length_cons]
  omega

/-- The keys that entering another key tells, if it does. -/
def Closed (enter : κ → σ → Except ε (σ × List κ)) (all : List κ) : Prop :=
  ∀ k ∈ all, ∀ s s' keys, enter k s = .ok (s', keys) → keys ⊆ all

theorem each_ends {visit : κ → Walk κ σ → Option (Except ε (Walk κ σ))} {bound : Nat}
    (hvisit : ∀ k ∈ all, ∀ w, missing all w < bound → (visit k w).isSome)
    (hgrows : ∀ k w w', visit k w = some (.ok w') → w.visited ⊆ w'.visited)
    (hkeys : keys ⊆ all) (hw : missing all w < bound) : (each visit keys w).isSome := by
  induction keys generalizing w with
  | nil => rfl
  | cons k rest ih =>
    have hrest := (List.cons_subset.mp hkeys).2
    unfold each
    by_cases hknown : w.visited.contains k
    · rw [if_pos hknown]
      exact ih hrest hw
    · rw [if_neg hknown]
      obtain ⟨first, hfirst⟩ :=
        Option.isSome_iff_exists.mp (hvisit k (List.cons_subset.mp hkeys).1 w hw)
      rw [hfirst]
      cases first with
      | error e => rfl
      | ok w' => exact ih hrest (Nat.lt_of_le_of_lt (missing_le (hgrows _ _ _ hfirst)) hw)

/-- A walk returns when all it may come to is among as many keys as it has depth. -/
theorem explore_ends (hclosed : Closed enter all) {depth : Nat} (hk : k ∈ all)
    (hw : missing all w < depth) : (explore enter depth k w).isSome := by
  induction depth generalizing k w with
  | zero => exact absurd hw (Nat.not_lt_zero _)
  | succ depth ih =>
    unfold explore
    by_cases hknown : w.visited.contains k
    · rw [if_pos hknown]
      rfl
    · rw [if_neg hknown]
      have hnew : k ∉ w.visited := by simpa using hknown
      cases henter : enter k w.state with
      | error e => rfl
      | ok entered =>
        have hlt := missing_lt hk hnew entered.1
        refine each_ends (fun k hk w hw => ih hk hw) ?_ (hclosed k hk _ _ _ henter)
          (Nat.lt_of_lt_of_le hlt (Nat.le_of_lt_succ hw))
        intro k w w' h
        have hdone : Done enter (fun _ _ => False) w [k] w' :=
          explore_done (fun _ _ _ _ _ _ h => h.elim) h
        exact hdone.leads.subset

end Ends

end WalletToolbox.Lib.Explore
