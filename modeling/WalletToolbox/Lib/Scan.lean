import Mathlib.Data.List.AList
import Mathlib.Data.List.Induction
import Mathlib.Data.List.Sort
import Mathlib.Tactic.Common

/-! # Range scans

A range of keys is read out as the concatenation of one block for each key that has one.
The blocks have one length, so the output tells them apart, and it is the right one exactly when
every key that should have a block has a right one. -/

namespace WalletToolbox.Lib

variable {α β ι : Type}

/-! ## Blocks -/

theorem flatten_blocks_inj {n : Nat} (hn : 0 < n) {as bs : List (List α)}
    (has : ∀ a ∈ as, a.length = n) (hbs : ∀ b ∈ bs, b.length = n) (h : as.flatten = bs.flatten) :
    as = bs := by
  induction as generalizing bs with
  | nil =>
    cases bs with
    | nil => rfl
    | cons b bs =>
      have hlength := congrArg List.length h
      rw [List.flatten_nil, List.flatten_cons, List.length_nil, List.length_append,
        hbs b List.mem_cons_self] at hlength
      omega
  | cons a as ih =>
    cases bs with
    | nil =>
      have hlength := congrArg List.length h
      rw [List.flatten_nil, List.flatten_cons, List.length_nil, List.length_append,
        has a List.mem_cons_self] at hlength
      omega
    | cons b bs =>
      rw [List.flatten_cons, List.flatten_cons] at h
      have hsame : a.length = b.length := by
        rw [has a List.mem_cons_self, hbs b List.mem_cons_self]
      obtain ⟨rfl, hrest⟩ := List.append_inj h hsame
      rw [ih (fun a ha => has a (List.mem_cons_of_mem _ ha))
        (fun b hb => hbs b (List.mem_cons_of_mem _ hb)) hrest]

theorem flatMap_getD (block : ι → Option (List α)) (keys : List ι) :
    (keys.flatMap fun k => (block k).getD []) = (keys.filterMap block).flatten := by
  induction keys with
  | nil => rfl
  | cons k keys ih =>
    rw [List.flatMap_cons, ih]
    cases hblock : block k with
    | none => rw [List.filterMap_cons_none hblock, Option.getD_none, List.nil_append]
    | some b => rw [List.filterMap_cons_some hblock, Option.getD_some, List.flatten_cons]

/-- The keys that have a block, with their blocks. -/
theorem forall₂_filterMap (block : ι → Option β) (keys : List ι) :
    List.Forall₂ (fun k b => block k = some b) (keys.filter fun k => (block k).isSome)
      (keys.filterMap block) := by
  induction keys with
  | nil => exact .nil
  | cons k keys ih =>
    cases hblock : block k with
    | none => rwa [List.filterMap_cons_none hblock, List.filter_cons_of_neg (by simp [hblock])]
    | some b =>
      rw [List.filterMap_cons_some hblock, List.filter_cons_of_pos (by simp [hblock])]
      exact .cons hblock ih

/-! ## Scans -/

/-- The output holds one right block of `n` items for each key in the range that stands, in ascending
order of the keys. -/
def ScansExactly (n low high : Nat) (Stands : Nat → Prop) (Right : Nat → List α → Prop)
    (out : List α) : Prop :=
  ∃ keys blocks, keys.Pairwise (· < ·) ∧ (∀ k, k ∈ keys ↔ low ≤ k ∧ k < high ∧ Stands k) ∧
    List.Forall₂ (fun k b => b.length = n ∧ Right k b) keys blocks ∧ out = blocks.flatten

variable {n low high stop : Nat} {Stands : Nat → Prop} {Right : Nat → List α → Prop}
  {block : Nat → Option (List α)}

/-- A scan that may stop early is exact when it reaches every key that stands and finds a right block
there. -/
theorem scansExactly_iff (hn : 0 < n) (hstop : stop = high ∨ stop ≤ low)
    (hlength : ∀ k b, block k = some b → b.length = n)
    (hsound : ∀ k b, block k = some b → Stands k) :
    ScansExactly n low high Stands Right
        ((List.range' low (stop - low)).flatMap fun k => (block k).getD []) ↔
      ∀ k, low ≤ k → k < high → Stands k → k < stop ∧ ∃ b, block k = some b ∧ Right k b := by
  rw [flatMap_getD]
  have hread := forall₂_filterMap block (List.range' low (stop - low))
  have hascending : ((List.range' low (stop - low)).filter fun k => (block k).isSome).Pairwise
      (· < ·) := (List.pairwise_lt_range' ..).filter _
  have hkeys : ∀ k, k ∈ ((List.range' low (stop - low)).filter fun k => (block k).isSome) ↔
      low ≤ k ∧ k < stop ∧ (block k).isSome := by
    intro k
    rw [List.mem_filter, List.mem_range'_1]
    constructor
    · rintro ⟨⟨hle, hlt⟩, hsome⟩
      exact ⟨hle, by omega, hsome⟩
    · rintro ⟨hle, hlt, hsome⟩
      exact ⟨⟨hle, by omega⟩, hsome⟩
  have hwidths : ∀ b ∈ (List.range' low (stop - low)).filterMap block, b.length = n := by
    intro b hb
    obtain ⟨k, -, hk⟩ := List.mem_filterMap.mp hb
    exact hlength k b hk
  generalize (List.range' low (stop - low)).filter (fun k => (block k).isSome) = read
    at hread hascending hkeys
  generalize (List.range' low (stop - low)).filterMap block = found at hread hwidths
  constructor
  · rintro ⟨keys, blocks, hordered, hmem, hblocks, hout⟩
    have hsizes : ∀ b ∈ blocks, b.length = n := by
      intro b hb
      obtain ⟨i, hi, rfl⟩ := List.getElem_of_mem hb
      exact (hblocks.get (hblocks.length_eq ▸ hi) hi).1
    obtain rfl := flatten_blocks_inj hn hwidths hsizes hout
    have hsubset : read ⊆ keys := by
      intro k hk
      obtain ⟨hle, hlt, hsome⟩ := (hkeys k).mp hk
      obtain ⟨b, hb⟩ := Option.isSome_iff_exists.mp hsome
      exact (hmem k).mpr ⟨hle, by omega, hsound k b hb⟩
    have hsame : read = keys := by
      have hperm := (List.subperm_of_subset hascending.nodup hsubset).perm_of_length_le
        (by rw [hread.length_eq, hblocks.length_eq])
      exact hperm.eq_of_pairwise (fun a b _ _ hab hba => absurd hab (Nat.lt_asymm hba)) hascending
        hordered
    subst hsame
    intro k hle hlt hstands
    have hk := (hmem k).mpr ⟨hle, hlt, hstands⟩
    refine ⟨((hkeys k).mp hk).2.1, ?_⟩
    obtain ⟨i, hi, rfl⟩ := List.getElem_of_mem hk
    have hi' : i < found.length := hread.length_eq ▸ hi
    exact ⟨_, hread.get hi hi', (hblocks.get hi hi').2⟩
  · intro h
    refine ⟨read, found, hascending, fun k => ?_, ?_, rfl⟩
    · rw [hkeys]
      constructor
      · rintro ⟨hle, hlt, hsome⟩
        obtain ⟨b, hb⟩ := Option.isSome_iff_exists.mp hsome
        exact ⟨hle, by omega, hsound k b hb⟩
      · rintro ⟨hle, hlt, hstands⟩
        obtain ⟨hstop, b, hb, -⟩ := h k hle hlt hstands
        exact ⟨hle, hstop, Option.isSome_iff_exists.mpr ⟨b, hb⟩⟩
    · refine List.forall₂_iff_get.mpr ⟨hread.length_eq, fun i hi hi' => ?_⟩
      have hfound := hread.get hi hi'
      obtain ⟨hle, hlt, -⟩ := (hkeys _).mp (List.get_mem read ⟨i, hi⟩)
      obtain ⟨-, b, hb, hright⟩ := h _ hle (by omega) (hsound _ _ hfound)
      obtain rfl := Option.some.inj (hb.symm.trans hfound)
      exact ⟨hlength _ _ hb, hright⟩

/-! ## Scans of a map -/

/-- Items enter a map by their keys: of those with one key the last one stays. -/
theorem lookup_foldl_insert_last {κ : Type} [DecidableEq κ] (key : ι → κ) (value : ι → β)
    (items : List ι) (index : AList fun _ : κ => β) (k : κ) :
    (items.foldl (fun index i => index.insert (key i) (value i)) index).lookup k =
      ((items.filter fun i => key i = k).getLast?.map value).or (index.lookup k) := by
  induction items using List.reverseRecOn with
  | nil => rfl
  | append_singleton items i ih =>
    rw [List.foldl_append, List.foldl_cons, List.foldl_nil, List.filter_append]
    by_cases hk : key i = k
    · subst hk
      rw [AList.lookup_insert, List.filter_cons_of_pos (by simp), List.filter_nil,
        List.getLast?_concat, Option.map_some, Option.some_or]
    · rw [AList.lookup_insert_ne (Ne.symm hk), ih, List.filter_cons_of_neg (by simpa using hk),
        List.filter_nil, List.append_nil]

/-- The keys of a map in ascending order, when they all lie in a range. -/
theorem sorted_keys_eq {m : AList fun _ : Nat => β} (hkeys : ∀ k ∈ m, low ≤ k ∧ k < stop) :
    m.keys.mergeSort (fun a b => a ≤ b) =
      (List.range' low (stop - low)).filter fun k => (m.lookup k).isSome := by
  have hperm : (m.keys.mergeSort fun a b => a ≤ b).Perm
      ((List.range' low (stop - low)).filter fun k => (m.lookup k).isSome) := by
    refine (List.mergeSort_perm _ _).trans ((List.perm_ext_iff_of_nodup m.nodupKeys
      ((List.nodup_range' ..).filter _)).mpr fun k => ?_)
    rw [List.mem_filter, List.mem_range'_1, AList.lookup_isSome]
    constructor
    · intro hk
      obtain ⟨hle, hlt⟩ := hkeys k hk
      exact ⟨⟨hle, by omega⟩, hk⟩
    · exact fun h => h.2
  refine hperm.eq_of_pairwise (fun a b _ _ hab hba => Nat.le_antisymm hab hba) ?_
    (((List.pairwise_lt_range' ..).filter _).imp Nat.le_of_lt)
  exact (@List.pairwise_mergeSort _ (fun a b => decide (a ≤ b)) (by simp; omega) (by simp; omega)
    m.keys).imp fun h => of_decide_eq_true h

theorem flatMap_sorted_keys {m : AList fun _ : Nat => List α}
    (hkeys : ∀ k ∈ m, low ≤ k ∧ k < stop) :
    ((m.keys.mergeSort fun a b => a ≤ b).flatMap fun k => (m.lookup k).getD []) =
      (List.range' low (stop - low)).flatMap fun k => (m.lookup k).getD [] := by
  rw [flatMap_getD, flatMap_getD, sorted_keys_eq hkeys, List.filterMap_filter]
  congr 2
  funext k
  split
  · rfl
  · rename_i hnone
    exact (Option.not_isSome_iff_eq_none.mp hnone).symm

end WalletToolbox.Lib
