import Mathlib.Data.List.Basic
import Mathlib.Data.Nat.Bitwise
import Mathlib.Tactic.Common

/-! # Merkle trees with a repeated last node

The nodes of a level are combined in pairs, the last one with itself when it has no partner, until
one node is left.
The partner of a position is the position with the last bit flipped. -/

namespace WalletToolbox.Lib.Merkle

variable {α : Type} (combine : α → α → α)

/-- The level above. -/
def nextLevel : List α → List α
  | a :: b :: rest => combine a b :: nextLevel rest
  | [a] => [combine a a]
  | [] => []

theorem length_nextLevel (level : List α) :
    (nextLevel combine level).length = (level.length + 1) / 2 := by
  fun_induction nextLevel combine level with
  | case1 a b rest ih =>
    simp only [List.length_cons, ih]
    omega
  | case2 a => simp
  | case3 => simp

/-- The root of a tree, `none` for a tree without leaves. -/
def root : List α → Option α
  | [] => none
  | [a] => some a
  | a :: b :: rest => root (nextLevel combine (a :: b :: rest))
termination_by level => level.length
decreasing_by
  rw [length_nextLevel]
  simp only [List.length_cons]
  omega

/-- The partners on the way from a leaf to the root, `none` where a node is its own partner. -/
def siblings : List α → Nat → List (Option α)
  | a :: b :: rest, i =>
    (a :: b :: rest)[i ^^^ 1]? :: siblings (nextLevel combine (a :: b :: rest)) (i / 2)
  | _, _ => []
termination_by level => level.length
decreasing_by
  rw [length_nextLevel]
  simp only [List.length_cons]
  omega

/-- The node above a node and its partner. -/
def above (i : Nat) (a : α) : Option α → α
  | none => combine a a
  | some sibling => if i % 2 = 1 then combine sibling a else combine a sibling

/-- The node at the end of a way up. -/
def climb : List (Option α) → Nat → α → α
  | [], _, a => a
  | sibling :: rest, i, a => climb rest (i / 2) (above combine i a sibling)

/-! ## The partner of a position -/

theorem xor_one_eq (i : Nat) : i ^^^ 1 = if i % 2 = 1 then i - 1 else i + 1 := by
  by_cases hodd : i % 2 = 1
  · rw [if_pos hodd]
    exact Nat.xor_one_of_odd (Nat.odd_iff.mpr hodd)
  · rw [if_neg hodd]
    exact Nat.xor_one_of_even (Nat.even_iff.mpr (by omega))

theorem xor_one_ne (i : Nat) : i ^^^ 1 ≠ i := by
  rw [xor_one_eq]
  split_ifs <;> omega

theorem xor_one_div_two (i : Nat) : (i ^^^ 1) / 2 = i / 2 := by
  rw [xor_one_eq]
  split_ifs <;> omega

theorem add_two_xor_one (i : Nat) : (i + 2) ^^^ 1 = (i ^^^ 1) + 2 := by
  rw [xor_one_eq, xor_one_eq]
  split_ifs <;> omega

/-! ## The way up -/

variable {combine} {level : List α} {i : Nat} {a : α}

/-- A position of the level above holds the node above the two positions below it. -/
theorem getElem?_nextLevel (h : level[i]? = some a) :
    (nextLevel combine level)[i / 2]? = some (above combine i a level[i ^^^ 1]?) := by
  fun_induction nextLevel combine level generalizing i with
  | case1 b c rest ih =>
    match i, h with
    | 0, h =>
      cases h
      rfl
    | 1, h =>
      cases h
      rfl
    | i + 2, h =>
      have hdiv : (i + 2) / 2 = i / 2 + 1 := by omega
      have hodd : (i + 2) % 2 = i % 2 := by omega
      rw [hdiv, add_two_xor_one, List.getElem?_cons_succ, ih h]
      simp only [above, hodd, List.getElem?_cons_succ]
  | case2 b =>
    match i, h with
    | 0, h =>
      cases h
      rfl
  | case3 => simp at h

/-- The way up from a leaf ends at the root. -/
theorem root_eq_climb (h : level[i]? = some a) :
    root combine level = some (climb combine (siblings combine level i) i a) := by
  induction level using root.induct combine generalizing i a with
  | case1 => simp at h
  | case2 b =>
    match i, h with
    | 0, h =>
      cases h
      simp [root, siblings, climb]
  | case3 b c rest ih =>
    rw [root, siblings, climb]
    exact ih (getElem?_nextLevel h)

theorem siblings_of_two_le (hlen : 2 ≤ level.length) (i : Nat) :
    siblings combine level i =
      level[i ^^^ 1]? :: siblings combine (nextLevel combine level) (i / 2) := by
  match level, hlen with
  | b :: c :: rest, _ => rw [siblings]

theorem mem_nextLevel (h : a ∈ nextLevel combine level) : ∃ b c, a = combine b c := by
  fun_induction nextLevel combine level with
  | case1 b c rest ih =>
    rcases List.mem_cons.mp h with rfl | h
    · exact ⟨b, c, rfl⟩
    · exact ih h
  | case2 b => exact ⟨b, b, List.mem_singleton.mp h⟩
  | case3 => cases h

/-- A partner is a leaf or a combined node. -/
theorem mem_siblings (h : some a ∈ siblings combine level i) :
    a ∈ level ∨ ∃ b c, a = combine b c := by
  induction level using root.induct combine generalizing i with
  | case1 => simp [siblings] at h
  | case2 b => simp [siblings] at h
  | case3 b c rest ih =>
    rw [siblings] at h
    rcases List.mem_cons.mp h with heq | h
    · exact .inl (List.mem_of_getElem? heq.symm)
    · rcases ih h with hmem | hcombined
      · exact .inr (mem_nextLevel hmem)
      · exact .inr hcombined

end WalletToolbox.Lib.Merkle
