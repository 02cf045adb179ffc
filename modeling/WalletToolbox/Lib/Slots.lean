import Mathlib.Data.List.Nodup
import Mathlib.Data.List.Perm.Subperm
import Mathlib.Data.List.Sort
import Mathlib.Tactic.Common

/-! # Numbered slots

A list of owners is merged with a list of numbered items: the items are taken in order of their
numbers, and one whose number is the position of an owner stands for that owner.
When the numbers are not a permutation, owners are left out, repeated or moved.
`placed_iff` says which numberings put every owner at its position and repeat nobody. -/

namespace WalletToolbox.Lib

variable {α β γ κ : Type}

/-- The items in order of their numbers; items with the same number keep their order. -/
def inOrder (number : β → Nat) (items : List β) : List β :=
  items.mergeSort fun a b => number a ≤ number b

/-- The items that stand for no owner, in order of their numbers. -/
def unowned (number : β → Nat) (n : Nat) (items : List β) : List β :=
  (inOrder number items).filter fun b => n ≤ number b

/-- What comes of an item. -/
def slotOf (number : β → Nat) (own : α → γ) (free : β → γ) (owners : List α) (b : β) : γ :=
  match owners[number b]? with
  | some a => own a
  | none => free b

/-- The merged list. -/
def slots (number : β → Nat) (own : α → γ) (free : β → γ) (owners : List α) (items : List β) : List γ :=
  (inOrder number items).map (slotOf number own free owners)

/-- The numbers below the number of owners are the first ones, each once; the owners without an item
are what the first items without an owner come to; and no key occurs twice. -/
structure Placed (number : β → Nat) (own : α → γ) (free : β → γ) (key : γ → κ) (owners : List α)
    (items : List β) (k : Nat) : Prop where
  bound : k ≤ owners.length
  numbers : ((items.map number).filter (· < owners.length)).Perm (List.range k)
  others : (owners.drop k).map own =
    ((unowned number owners.length items).take (owners.length - k)).map free
  distinct : ((owners.map own ++
    ((unowned number owners.length items).drop (owners.length - k)).map free).map key).Nodup

section Order

variable {number : β → Nat} {items : List β}

theorem inOrder_perm : (inOrder number items).Perm items :=
  List.mergeSort_perm _ _

theorem inOrder_pairwise : (inOrder number items).Pairwise fun a b => number a ≤ number b := by
  have h := @List.pairwise_mergeSort β (fun a b => decide (number a ≤ number b))
    (fun a b c hab hbc => by
      rw [decide_eq_true_eq] at hab hbc ⊢
      exact Nat.le_trans hab hbc)
    (fun a b => by
      rw [Bool.or_eq_true, decide_eq_true_eq, decide_eq_true_eq]
      exact Nat.le_total _ _) items
  exact h.imp of_decide_eq_true

/-- In an ordered list those with small numbers come first. -/
theorem filter_append_of_pairwise {xs : List β} (n : Nat)
    (h : xs.Pairwise fun a b => number a ≤ number b) :
    xs.filter (fun b => number b < n) ++ xs.filter (fun b => n ≤ number b) = xs := by
  induction xs with
  | nil => rfl
  | cons x xs ih =>
    obtain ⟨hx, hxs⟩ := List.pairwise_cons.mp h
    by_cases hlt : number x < n
    · have hnot : ¬n ≤ number x := Nat.not_le.mpr hlt
      simp only [List.filter_cons, hlt, hnot, decide_true, decide_false, if_true,
        Bool.false_eq_true, if_false, List.cons_append, ih hxs]
    · have hle : n ≤ number x := Nat.not_lt.mp hlt
      have hnone : xs.filter (fun b => decide (number b < n)) = [] := by
        refine List.filter_eq_nil_iff.mpr fun y hy => ?_
        have hxy := hx y hy
        simp only [decide_eq_true_eq]
        omega
      have hall : xs.filter (fun b => decide (n ≤ number b)) = xs := by
        refine List.filter_eq_self.mpr fun y hy => ?_
        have hxy := hx y hy
        simp only [decide_eq_true_eq]
        omega
      simp only [List.filter_cons, hlt, hle, decide_true, decide_false, if_true,
        Bool.false_eq_true, if_false, hnone, hall, List.nil_append]

/-- An ordered list of numbers that are the first ones, each once, counts them. -/
theorem eq_range_of_perm {ns : List Nat} {k : Nat} (hsorted : ns.Pairwise (· ≤ ·))
    (hperm : ns.Perm (List.range k)) : ns = List.range k :=
  hperm.eq_of_pairwise (fun _ _ _ _ => Nat.le_antisymm) hsorted
    (List.pairwise_lt_range.imp Nat.le_of_lt)

end Order

section Slots

variable {number : β → Nat} {own : α → γ} {free : β → γ} {key : γ → κ} {owners : List α}
  {items : List β}

/-- The numbers of the items that stand for owners, in order. -/
def ownNumbers (number : β → Nat) (n : Nat) (items : List β) : List Nat :=
  ((inOrder number items).filter fun b => number b < n).map number

theorem ownNumbers_perm (n : Nat) :
    (ownNumbers number n items).Perm ((items.map number).filter (· < n)) := by
  rw [List.filter_map]
  exact (inOrder_perm.filter _).map _

theorem ownNumbers_pairwise (n : Nat) : (ownNumbers number n items).Pairwise (· ≤ ·) := by
  rw [ownNumbers, List.pairwise_map]
  exact inOrder_pairwise.filter _

theorem lt_of_mem_ownNumbers {n i : Nat} (h : i ∈ ownNumbers number n items) : i < n := by
  obtain ⟨b, hb, rfl⟩ := List.mem_map.mp h
  exact of_decide_eq_true (List.mem_filter.mp hb).2

/-- The owners with the given positions. -/
def ownersAt (own : α → γ) (owners : List α) (ns : List Nat) : List γ :=
  ns.filterMap fun i => owners[i]?.map own

/-- The owners come first, by their numbers. -/
theorem slots_eq : slots number own free owners items =
    ownersAt own owners (ownNumbers number owners.length items) ++
      (unowned number owners.length items).map free := by
  have hown : ((inOrder number items).filter fun b => number b < owners.length).map
      (slotOf number own free owners) = ownersAt own owners (ownNumbers number owners.length items) := by
    rw [ownersAt, ownNumbers, List.filterMap_map]
    refine (List.filterMap_eq_map_iff_forall_eq_some.mpr fun b hb => ?_).symm
    have hlt : number b < owners.length := of_decide_eq_true (List.mem_filter.mp hb).2
    simp only [Function.comp, slotOf, List.getElem?_eq_getElem hlt, Option.map_some]
  have hfree : ((inOrder number items).filter fun b => owners.length ≤ number b).map
      (slotOf number own free owners) = (unowned number owners.length items).map free := by
    refine List.map_congr_left fun b hb => ?_
    have hle : owners.length ≤ number b := of_decide_eq_true (List.mem_filter.mp hb).2
    simp only [slotOf, List.getElem?_eq_none hle]
  rw [← hown, ← hfree, ← List.map_append, filter_append_of_pairwise _ inOrder_pairwise]
  rfl

theorem ownersAt_range (k : Nat) : ownersAt own owners (List.range k) = (owners.take k).map own := by
  induction k with
  | zero => rfl
  | succ k ih =>
    rw [List.range_succ, ownersAt, List.filterMap_append, ← ownersAt, ih]
    rcases Nat.lt_or_ge k owners.length with hlt | hle
    · rw [List.take_succ_eq_append_getElem hlt]
      simp only [List.filterMap_cons, List.filterMap_nil, List.getElem?_eq_getElem hlt,
        Option.map_some, List.map_append, List.map_cons, List.map_nil]
    · rw [List.take_of_length_le hle, List.take_of_length_le (Nat.le_succ_of_le hle)]
      simp only [List.filterMap_cons, List.filterMap_nil, List.getElem?_eq_none hle,
        Option.map_none, List.append_nil]

theorem getElem?_ownersAt {ns : List Nat} (h : ∀ i ∈ ns, i < owners.length) (j : Nat) :
    (ownersAt own owners ns)[j]? = ns[j]?.bind fun i => owners[i]?.map own := by
  induction ns generalizing j with
  | nil => rfl
  | cons i ns ih =>
    have hi : i < owners.length := h i List.mem_cons_self
    have hrest := ih fun i hi => h i (List.mem_cons_of_mem _ hi)
    rw [ownersAt, List.filterMap_cons, List.getElem?_eq_getElem hi, Option.map_some, ← ownersAt]
    cases j with
    | zero => simp only [List.getElem?_cons_zero, Option.bind_some, List.getElem?_eq_getElem hi,
        Option.map_some]
    | succ j => rw [List.getElem?_cons_succ, List.getElem?_cons_succ, hrest]

theorem length_ownersAt {ns : List Nat} (h : ∀ i ∈ ns, i < owners.length) :
    (ownersAt own owners ns).length = ns.length := by
  rw [ownersAt, List.filterMap_length_eq_length]
  intro i hi
  rw [List.getElem?_eq_getElem (h i hi)]
  rfl

/-- With the owners in front and no key twice, the numbers of the items that stand for owners count
from zero. -/
theorem ownNumbers_eq_range (hfront : owners.map own <+: slots number own free owners items)
    (hnodup : ((slots number own free owners items).map key).Nodup) :
    ∃ k ≤ owners.length, ownNumbers number owners.length items = List.range k := by
  generalize hns : ownNumbers number owners.length items = ns
  have hlt : ∀ i ∈ ns, i < owners.length := fun i hi => lt_of_mem_ownNumbers (hns ▸ hi)
  have hslots := @slots_eq α β γ number own free owners items
  rw [hns] at hslots
  obtain ⟨rest, hrest⟩ := hfront
  -- the owners' keys are all different, for they are in front
  have howners : ((owners.map own).map key).Nodup := by
    rw [← hrest, List.map_append] at hnodup
    exact (List.nodup_append.mp hnodup).1
  have hkeys : ((ownersAt own owners ns).map key).Nodup := by
    rw [hslots, List.map_append] at hnodup
    exact (List.nodup_append.mp hnodup).1
  have hns' : ns.Nodup := by
    have hsome : ns.map (fun i => (owners[i]?.map own).map key) =
        ((ownersAt own owners ns).map key).map some := by
      refine List.ext_getElem? fun j => ?_
      rw [List.getElem?_map, List.getElem?_map, List.getElem?_map, getElem?_ownersAt hlt]
      rcases hj : ns[j]? with _ | i
      · rfl
      · have hi := hlt i (List.mem_of_getElem? hj)
        simp only [Option.map_some, Option.bind_some, List.getElem?_eq_getElem hi]
    have h := hkeys.map (Option.some_injective κ)
    rw [← hsome] at h
    exact h.of_map
  have hle : ns.length ≤ owners.length := by
    have hsub : ns ⊆ List.range owners.length := fun i hi => List.mem_range.mpr (hlt i hi)
    simpa only [List.length_range] using (hns'.subperm hsub).length_le
  refine ⟨ns.length, hle, List.ext_getElem? fun j => ?_⟩
  rcases Nat.lt_or_ge j ns.length with hj | hj
  · have hjn : j < owners.length := Nat.lt_of_lt_of_le hj hle
    have hat : (slots number own free owners items)[j]? = owners[ns[j]]?.map own := by
      rw [hslots, List.getElem?_append_left (length_ownersAt hlt ▸ hj), getElem?_ownersAt hlt,
        List.getElem?_eq_getElem hj, Option.bind_some]
    have hfront : (slots number own free owners items)[j]? = owners[j]?.map own := by
      rw [← hrest, List.getElem?_append_left (by simpa using hjn), List.getElem?_map]
    have hsame : ((owners.map own).map key)[j]? = ((owners.map own).map key)[ns[j]]? := by
      rw [List.getElem?_map, List.getElem?_map, List.getElem?_map, List.getElem?_map, ← hfront, hat]
    have hkey := (List.getElem?_inj (by simpa using hjn) howners).mp hsame
    rw [List.getElem?_eq_getElem hj, ← hkey, List.getElem?_range hj]
  · rw [List.getElem?_eq_none hj, List.getElem?_eq_none (by simpa using hj)]

/-- The owners are in front and no key occurs twice exactly when the numbers are as `Placed` says. -/
theorem placed_iff :
    (owners.map own <+: slots number own free owners items ∧
      ((slots number own free owners items).map key).Nodup) ↔
    ∃ k, Placed number own free key owners items k := by
  constructor
  · rintro ⟨hfront, hnodup⟩
    obtain ⟨k, hk, hns⟩ := ownNumbers_eq_range hfront hnodup
    obtain ⟨rest, hrest⟩ := hfront
    have hothers : (owners.drop k).map own ++ rest = (unowned number owners.length items).map free := by
      have hslots := @slots_eq α β γ number own free owners items
      rw [hns, ownersAt_range, ← hrest] at hslots
      conv_lhs at hslots => rw [← List.take_append_drop k owners, List.map_append, List.append_assoc]
      exact List.append_cancel_left hslots
    have hlength : ((owners.drop k).map own).length = owners.length - k := by
      rw [List.length_map, List.length_drop]
    refine ⟨k, hk, hns ▸ (ownNumbers_perm _).symm, ?_, ?_⟩
    · rw [List.map_take, ← hothers, ← hlength, List.take_left' rfl]
    · rw [List.map_drop, ← hothers, ← hlength, List.drop_left' rfl, hrest]
      exact hnodup
  · rintro ⟨k, hk, hnumbers, hothers, hdistinct⟩
    have hns : ownNumbers number owners.length items = List.range k :=
      eq_range_of_perm (ownNumbers_pairwise _) ((ownNumbers_perm _).trans hnumbers)
    have hslots : slots number own free owners items = owners.map own ++
        ((unowned number owners.length items).drop (owners.length - k)).map free := by
      rw [slots_eq, hns, ownersAt_range]
      conv_lhs => rw [← List.take_append_drop (owners.length - k) (unowned number owners.length items)]
      rw [List.map_append, ← hothers, ← List.append_assoc, ← List.map_append, List.take_append_drop]
    exact ⟨⟨_, hslots.symm⟩, hslots ▸ hdistinct⟩

end Slots

end WalletToolbox.Lib
