import Mathlib.Logic.Relation
import Mathlib.Tactic.Common

/-! # Forests given by parent links

Every node names at most one parent; `OnPath x y` says that `y` is on the way from `x` to its root.
`climb` follows a number of links and `segment` lists the nodes that it passes.
Where the links lower a rank by one, a node is determined on its path by its rank. -/

namespace WalletToolbox.Lib.Forest

variable {α : Type} {parent parent' : α → Option α} {x y z a n : α}

/-- `y` is `x` or one of the nodes above it. -/
def OnPath (parent : α → Option α) (x y : α) : Prop :=
  Relation.ReflTransGen (fun child above => parent child = some above) x y

/-- The node a number of links above. -/
def climb (parent : α → Option α) : Nat → α → Option α
  | 0, x => some x
  | k + 1, x => (parent x).bind (climb parent k)

/-- The first nodes of a path, itself included. -/
def segment (parent : α → Option α) : Nat → α → List α
  | 0, _ => []
  | k + 1, x => x :: match parent x with
    | none => []
    | some above => segment parent k above

theorem OnPath.refl (x : α) : OnPath parent x x := Relation.ReflTransGen.refl

theorem OnPath.trans (hxy : OnPath parent x y) (hyz : OnPath parent y z) : OnPath parent x z :=
  Relation.ReflTransGen.trans hxy hyz

theorem OnPath.single (h : parent x = some y) : OnPath parent x y :=
  Relation.ReflTransGen.single h

theorem onPath_iff : OnPath parent x y ↔ y = x ∨ ∃ above, parent x = some above ∧
    OnPath parent above y := by
  rw [OnPath, Relation.ReflTransGen.cases_head_iff]
  exact or_congr_left eq_comm

theorem onPath_root (h : parent x = none) : OnPath parent x y ↔ y = x := by
  rw [onPath_iff]
  constructor
  · rintro (rfl | ⟨above, habove, -⟩)
    · rfl
    · rw [h] at habove
      cases habove
  · exact .inl

/-- Two nodes of one path compare. -/
theorem OnPath.total (hy : OnPath parent x y) (hz : OnPath parent x z) :
    OnPath parent y z ∨ OnPath parent z y := by
  refine Relation.ReflTransGen.total_of_right_unique ?_ hy hz
  intro a b c hb hc
  rw [hb] at hc
  exact Option.some.inj hc

theorem climb_succ {k : Nat} (h : climb parent (k + 1) x = some y) :
    ∃ above, parent x = some above ∧ climb parent k above = some y :=
  Option.bind_eq_some_iff.mp h

theorem onPath_of_climb {k : Nat} (h : climb parent k x = some y) : OnPath parent x y := by
  induction k generalizing x with
  | zero =>
    cases h
    exact .refl _
  | succ k ih =>
    obtain ⟨above, habove, hclimb⟩ := climb_succ h
    exact (OnPath.single habove).trans (ih hclimb)

theorem onPath_iff_climb : OnPath parent x y ↔ ∃ k, climb parent k x = some y := by
  constructor
  · intro h
    induction h using Relation.ReflTransGen.head_induction_on with
    | refl => exact ⟨0, rfl⟩
    | head hstep _ ih =>
      obtain ⟨k, hk⟩ := ih
      exact ⟨k + 1, Option.bind_eq_some_iff.mpr ⟨_, hstep, hk⟩⟩
  · rintro ⟨k, hk⟩
    exact onPath_of_climb hk

/-- A climb stops at every node on the way. -/
theorem climb_split {j k : Nat} (h : climb parent (j + k) x = some a) :
    ∃ y, climb parent j x = some y ∧ climb parent k y = some a := by
  induction j generalizing x with
  | zero =>
    rw [Nat.zero_add] at h
    exact ⟨x, rfl, h⟩
  | succ j ih =>
    rw [Nat.succ_add] at h
    obtain ⟨above, habove, hclimb⟩ := climb_succ h
    obtain ⟨y, hy, ha⟩ := ih hclimb
    exact ⟨y, Option.bind_eq_some_iff.mpr ⟨above, habove, hy⟩, ha⟩

/-! ## Ranks -/

/-- Every link lowers the rank by one. -/
def Ranked (parent : α → Option α) (rank : α → Nat) : Prop :=
  ∀ x y, parent x = some y → rank x = rank y + 1

variable {rank : α → Nat}

theorem Ranked.climb (hrank : Ranked parent rank) {k : Nat} (h : climb parent k x = some y) :
    rank x = rank y + k := by
  induction k generalizing x with
  | zero =>
    cases h
    rfl
  | succ k ih =>
    obtain ⟨above, habove, hclimb⟩ := climb_succ h
    rw [hrank x above habove, ih hclimb, Nat.add_assoc]

theorem Ranked.onPath (hrank : Ranked parent rank) (h : OnPath parent x y) :
    Forest.climb parent (rank x - rank y) x = some y ∧ rank y ≤ rank x := by
  obtain ⟨k, hk⟩ := onPath_iff_climb.mp h
  have heq := hrank.climb hk
  have hdiff : rank x - rank y = k := by omega
  rw [hdiff]
  exact ⟨hk, by omega⟩

/-- A path has one node of each rank. -/
theorem Ranked.unique (hrank : Ranked parent rank) (hy : OnPath parent x y)
    (hz : OnPath parent x z) (h : rank y = rank z) : y = z := by
  have hy' := (hrank.onPath hy).1
  rw [h, (hrank.onPath hz).1] at hy'
  exact (Option.some.inj hy').symm

/-- Of two nodes of a path, the one of lower rank is above the other. -/
theorem Ranked.onPath_of_le (hrank : Ranked parent rank) (hy : OnPath parent x y)
    (hz : OnPath parent x z) (h : rank z ≤ rank y) : OnPath parent y z := by
  rcases hy.total hz with hyz | hzy
  · exact hyz
  · rw [hrank.unique hy hz (Nat.le_antisymm (hrank.onPath hzy).2 h)]
    exact .refl z

/-- A path passes every rank down to that of a node on it. -/
theorem Ranked.reach (hrank : Ranked parent rank) (ha : OnPath parent x a) {r : Nat}
    (hr : rank a ≤ r) : ∃ y, Forest.climb parent (rank x - r) x = some y ∧ OnPath parent y a := by
  obtain ⟨hclimb, hle⟩ := hrank.onPath ha
  have hsplit : rank x - rank a = (rank x - r) + (min (rank x) r - rank a) := by omega
  rw [hsplit] at hclimb
  obtain ⟨y, hy, hya⟩ := climb_split hclimb
  exact ⟨y, hy, onPath_of_climb hya⟩

/-- Every path ends at a root. -/
theorem Ranked.exists_root (hrank : Ranked parent rank) (x : α) :
    ∃ y, OnPath parent x y ∧ parent y = none := by
  generalize hr : rank x = r
  induction r using Nat.strongRecOn generalizing x with
  | ind r ih =>
    cases hparent : parent x with
    | none => exact ⟨x, .refl x, hparent⟩
    | some above =>
      have hlt := hrank x above hparent
      obtain ⟨y, hy, hroot⟩ := ih (rank above) (by omega) above rfl
      exact ⟨y, (OnPath.single hparent).trans hy, hroot⟩

/-- The nodes passed on the way to `a` are those of the path that are not on the path of `a`. -/
theorem Ranked.mem_segment (hrank : Ranked parent rank) {k : Nat}
    (h : Forest.climb parent k x = some a) :
    y ∈ segment parent k x ↔ OnPath parent x y ∧ ¬OnPath parent a y := by
  induction k generalizing x with
  | zero =>
    cases h
    simp [segment]
  | succ k ih =>
    obtain ⟨above, habove, hclimb⟩ := climb_succ h
    rw [segment, habove, List.mem_cons, ih hclimb, onPath_iff (x := x)]
    constructor
    · rintro (rfl | ⟨hy, hna⟩)
      · refine ⟨.inl rfl, fun hay => ?_⟩
        have hle := (hrank.onPath hay).2
        have heq := hrank.climb h
        omega
      · exact ⟨.inr ⟨above, habove, hy⟩, hna⟩
    · rintro ⟨rfl | ⟨above', habove', hy⟩, hna⟩
      · exact .inl rfl
      · rw [habove] at habove'
        cases habove'
        exact .inr ⟨hy, hna⟩

theorem length_segment {k : Nat} (h : climb parent k x = some a) :
    (segment parent k x).length = k := by
  induction k generalizing x with
  | zero => rfl
  | succ k ih =>
    obtain ⟨above, habove, hclimb⟩ := climb_succ h
    rw [segment, habove, List.length_cons, ih hclimb]

theorem Ranked.nodup_segment (hrank : Ranked parent rank) {k : Nat}
    (h : Forest.climb parent k x = some a) : (segment parent k x).Nodup := by
  induction k generalizing x with
  | zero => exact List.nodup_nil
  | succ k ih =>
    obtain ⟨above, habove, hclimb⟩ := climb_succ h
    rw [segment, habove, List.nodup_cons]
    refine ⟨fun hmem => ?_, ih hclimb⟩
    have hle := (hrank.onPath ((hrank.mem_segment hclimb).mp hmem).1).2
    rw [hrank x above habove] at hle
    omega

/-! ## A new leaf -/

/-- A node that no link led to got its own link; the other links stayed. -/
structure Grown (parent parent' : α → Option α) (n : α) : Prop where
  same : ∀ x, x ≠ n → parent' x = parent x
  leaf : ∀ x, parent x ≠ some n

theorem Grown.onPath (h : Grown parent parent' n) (hx : x ≠ n) :
    OnPath parent' x y ↔ OnPath parent x y := by
  constructor
  · intro hpath
    induction hpath using Relation.ReflTransGen.head_induction_on with
    | refl => exact .refl _
    | head hstep _ ih =>
      rw [h.same _ hx] at hstep
      refine (OnPath.single hstep).trans (ih ?_)
      rintro rfl
      exact h.leaf _ hstep
  · intro hpath
    induction hpath using Relation.ReflTransGen.head_induction_on with
    | refl => exact .refl _
    | head hstep _ ih =>
      refine (OnPath.single ((h.same _ hx).trans hstep)).trans (ih ?_)
      rintro rfl
      exact h.leaf _ hstep

/-- The new leaf is on no other path. -/
theorem Grown.not_onPath (h : Grown parent parent' n) (hx : x ≠ n) : ¬OnPath parent' x n := by
  rw [h.onPath hx]
  intro hpath
  induction hpath using Relation.ReflTransGen.head_induction_on with
  | refl => exact hx rfl
  | @head child above hstep _ ih =>
    refine ih ?_
    rintro rfl
    exact h.leaf _ hstep

/-- The path of the new leaf is the leaf and the path of its parent. -/
theorem Grown.onPath_leaf (h : Grown parent parent' n) {above : α} (habove : parent' n = some above)
    (hne : above ≠ n) : OnPath parent' n y ↔ y = n ∨ OnPath parent above y := by
  rw [onPath_iff]
  constructor
  · rintro (rfl | ⟨above', habove', hpath⟩)
    · exact .inl rfl
    · rw [habove] at habove'
      cases habove'
      exact .inr ((h.onPath hne).mp hpath)
  · rintro (rfl | hpath)
    · exact .inl rfl
    · exact .inr ⟨above, habove, (h.onPath hne).mpr hpath⟩

end WalletToolbox.Lib.Forest
