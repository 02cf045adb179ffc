import Mathlib.Data.List.AList
import Mathlib.Tactic.Common

/-! # Indexes

A map from keys to names is an index of a collection when it finds exactly the members by their
keys. An index is kept up to date by erasing the keys of what leaves and inserting those of what
comes. -/

namespace WalletToolbox.Lib

variable {ι κ : Type} [DecidableEq κ] {index : AList fun _ : κ => ι} {key : ι → κ}
  {mem mem' : ι → Prop}

/-- Looking up a key finds the member with that key. -/
def IndexOf (index : AList fun _ : κ => ι) (mem : ι → Prop) (key : ι → κ) : Prop :=
  ∀ k i, index.lookup k = some i ↔ mem i ∧ key i = k

theorem IndexOf.inj (h : IndexOf index mem key) {i j : ι} (hi : mem i) (hj : mem j)
    (heq : key i = key j) : i = j := by
  have hi' := (h (key j) i).mpr ⟨hi, heq⟩
  rw [(h (key j) j).mpr ⟨hj, rfl⟩] at hi'
  exact (Option.some.inj hi').symm

theorem IndexOf.congr (h : IndexOf index mem key) (hmem : ∀ i, mem' i ↔ mem i) :
    IndexOf index mem' key := by
  intro k i
  rw [hmem, h]

theorem IndexOf.congr_key (h : IndexOf index mem key) (key' : ι → κ)
    (hkey : ∀ i, mem i → key' i = key i) : IndexOf index mem key' := by
  intro k i
  rw [h]
  exact and_congr_right fun hi => by rw [hkey i hi]

theorem IndexOf.empty : IndexOf (∅ : AList fun _ : κ => ι) (fun _ => False) key := by
  intro k i
  simp

theorem lookup_foldl_erase (keys : List ι) (k : κ) :
    (keys.foldl (fun index i => index.erase (key i)) index).lookup k =
      if ∃ i ∈ keys, key i = k then none else index.lookup k := by
  induction keys generalizing index with
  | nil => simp
  | cons i rest ih =>
    rw [List.foldl_cons, ih]
    by_cases hrest : ∃ j ∈ rest, key j = k
    · obtain ⟨j, hj, hk⟩ := hrest
      rw [if_pos ⟨j, hj, hk⟩, if_pos ⟨j, List.mem_cons_of_mem _ hj, hk⟩]
    · rw [if_neg hrest]
      by_cases hk : key i = k
      · rw [if_pos ⟨i, List.mem_cons_self, hk⟩, ← hk, AList.lookup_erase]
      · rw [AList.lookup_erase_ne (Ne.symm hk), if_neg]
        rintro ⟨j, hj, hkj⟩
        rcases List.mem_cons.mp hj with rfl | hj
        · exact hk hkj
        · exact hrest ⟨j, hj, hkj⟩

theorem lookup_foldl_insert_of_not_mem {members : List ι} {k : κ}
    (h : ∀ i ∈ members, key i ≠ k) :
    (members.foldl (fun index i => index.insert (key i) i) index).lookup k = index.lookup k := by
  induction members generalizing index with
  | nil => rfl
  | cons i rest ih =>
    rw [List.foldl_cons, ih fun j hj => h j (List.mem_cons_of_mem _ hj),
      AList.lookup_insert_ne (Ne.symm (h i List.mem_cons_self))]

theorem lookup_foldl_insert {members : List ι} {i : ι} (hi : i ∈ members)
    (hinj : ∀ j ∈ members, key j = key i → j = i) :
    (members.foldl (fun index i => index.insert (key i) i) index).lookup (key i) = some i := by
  induction members generalizing index with
  | nil => cases hi
  | cons j rest ih =>
    rw [List.foldl_cons]
    by_cases hrest : i ∈ rest
    · exact ih hrest fun j' hj' => hinj j' (List.mem_cons_of_mem _ hj')
    · obtain rfl : i = j := (List.mem_cons.mp hi).resolve_right hrest
      rw [lookup_foldl_insert_of_not_mem, AList.lookup_insert]
      intro j' hj' heq
      exact hrest (hinj j' (List.mem_cons_of_mem _ hj') heq ▸ hj')

/-- A new member whose key no other member has. -/
theorem IndexOf.insert (h : IndexOf index mem key) {n : ι} (hn : ∀ i, mem i → key i ≠ key n) :
    IndexOf (index.insert (key n) n) (fun i => mem i ∨ i = n) key := by
  intro k i
  by_cases hk : k = key n
  · subst hk
    rw [AList.lookup_insert, Option.some_inj]
    constructor
    · rintro rfl
      exact ⟨.inr rfl, rfl⟩
    · rintro ⟨hi | hi, heq⟩
      · exact absurd heq (hn i hi)
      · exact hi.symm
  · rw [AList.lookup_insert_ne hk, h]
    constructor
    · rintro ⟨hi, heq⟩
      exact ⟨.inl hi, heq⟩
    · rintro ⟨hi | rfl, heq⟩
      · exact ⟨hi, heq⟩
      · exact absurd heq.symm hk

/-- Members are filed, then some are taken out by their keys, then others are filed. The index is
right exactly when the members it is left with differ in their keys, and none of them loses its place
to one that was taken out. -/
theorem IndexOf.replaced_iff (h : IndexOf index mem key) {news gone come : List ι}
    (hmem : ∀ i, mem' i ↔ i ∈ come ∨ (mem i ∨ i ∈ news) ∧ i ∉ gone) :
    IndexOf (come.foldl (fun index i => index.insert (key i) i)
        (gone.foldl (fun index i => index.erase (key i))
          (news.foldl (fun index i => index.insert (key i) i) index))) mem' key ↔
      (∀ i j, mem' i → mem' j → key i = key j → i = j) ∧
        ∀ i ∈ gone, ∀ j, mem' j → j ∉ come → key j ≠ key i := by
  constructor
  · intro hindex
    refine ⟨fun i j hi hj => hindex.inj hi hj, ?_⟩
    intro i hi j hj hstays heq
    have hfound := (hindex (key j) j).mpr ⟨hj, rfl⟩
    rw [lookup_foldl_insert_of_not_mem, lookup_foldl_erase, if_pos ⟨i, hi, heq.symm⟩] at hfound
    · cases hfound
    · intro c hc hkey
      exact hstays (hindex.inj ((hmem c).mpr (.inl hc)) hj hkey ▸ hc)
  · rintro ⟨hinj, hkept⟩ k i
    by_cases hcome : ∃ j ∈ come, key j = k
    · obtain ⟨j, hj, rfl⟩ := hcome
      have hj' : mem' j := (hmem j).mpr (.inl hj)
      rw [lookup_foldl_insert hj fun j' hj'' heq => hinj j' j ((hmem j').mpr (.inl hj'')) hj' heq,
        Option.some_inj]
      constructor
      · rintro rfl
        exact ⟨hj', rfl⟩
      · rintro ⟨hi, heq⟩
        exact hinj j i hj' hi heq.symm
    · have hnew : ∀ j ∈ come, key j ≠ k := fun j hj heq => hcome ⟨j, hj, heq⟩
      rw [lookup_foldl_insert_of_not_mem hnew, lookup_foldl_erase]
      by_cases hgone : ∃ j ∈ gone, key j = k
      · rw [if_pos hgone]
        obtain ⟨j, hj, rfl⟩ := hgone
        constructor
        · intro hnone
          cases hnone
        · rintro ⟨hi, heq⟩
          exact absurd heq (hkept j hj i hi fun hc => hnew i hc heq)
      · rw [if_neg hgone]
        have hstays : ∀ j, (mem j ∨ j ∈ news) → key j = k → mem' j := fun j hj heq =>
          (hmem j).mpr (.inr ⟨hj, fun hg => hgone ⟨j, hg, heq⟩⟩)
        by_cases hnews : ∃ j ∈ news, key j = k
        · obtain ⟨j, hj, rfl⟩ := hnews
          have hj' := hstays j (.inr hj) rfl
          rw [lookup_foldl_insert hj fun j' hj'' heq => hinj j' j (hstays j' (.inr hj'') heq) hj' heq,
            Option.some_inj]
          constructor
          · rintro rfl
            exact ⟨hj', rfl⟩
          · rintro ⟨hi, heq⟩
            exact hinj j i hj' hi heq.symm
        · rw [lookup_foldl_insert_of_not_mem fun j hj heq => hnews ⟨j, hj, heq⟩, h]
          constructor
          · rintro ⟨hi, heq⟩
            exact ⟨hstays i (.inl hi) heq, heq⟩
          · rintro ⟨hi, rfl⟩
            rcases (hmem i).mp hi with hc | ⟨hold | hn, -⟩
            · exact absurd rfl (hnew i hc)
            · exact ⟨hold, rfl⟩
            · exact absurd ⟨i, hn, rfl⟩ hnews

/-- Some members leave and others come; one of the latter has overwritten its key before. -/
theorem IndexOf.rebuilt (h : IndexOf index mem key) (mem' : ι → Prop) {gone come : List ι} {n : ι}
    (hn : n ∈ come) (hgone : ∀ i ∈ gone, mem i)
    (hmem : ∀ i, mem' i ↔ mem i ∧ i ∉ gone ∨ i ∈ come)
    (hinj : ∀ i j, mem' i → mem' j → key i = key j → i = j) :
    IndexOf (come.foldl (fun index i => index.insert (key i) i)
      (gone.foldl (fun index i => index.erase (key i)) (index.insert (key n) n))) mem' key := by
  have hmem' : ∀ i, mem' i ↔ i ∈ come ∨ (mem i ∨ i ∈ [n]) ∧ i ∉ gone := by
    intro i
    rw [hmem, List.mem_singleton]
    constructor
    · rintro (⟨hi, hstays⟩ | hi)
      · exact .inr ⟨.inl hi, hstays⟩
      · exact .inl hi
    · rintro (hi | ⟨hi | rfl, hstays⟩)
      · exact .inr hi
      · exact .inl ⟨hi, hstays⟩
      · exact .inr hn
  refine (h.replaced_iff hmem').mpr ⟨hinj, ?_⟩
  intro i hi j hj hstays heq
  obtain ⟨hold, hkept⟩ := ((hmem j).mp hj).resolve_right hstays
  exact hkept (h.inj hold (hgone i hi) heq ▸ hi)

/-- Members are taken out. -/
theorem IndexOf.removed_iff (h : IndexOf index mem key) (gone : List ι) :
    IndexOf (gone.foldl (fun index i => index.erase (key i)) index) (fun i => mem i ∧ i ∉ gone) key ↔
      ∀ i ∈ gone, ∀ j, mem j → j ∉ gone → key j ≠ key i := by
  have hmem : ∀ i, (mem i ∧ i ∉ gone) ↔ i ∈ ([] : List ι) ∨ (mem i ∨ i ∈ ([] : List ι)) ∧ i ∉ gone := by
    simp
  refine (h.replaced_iff hmem).trans ⟨?_, ?_⟩
  · rintro ⟨-, hkept⟩ i hi j hj hstays
    exact hkept i hi j ⟨hj, hstays⟩ List.not_mem_nil
  · intro hkept
    exact ⟨fun i j hi hj => h.inj hi.1 hj.1, fun i hi j hj _ => hkept i hi j hj.1 hj.2⟩

end WalletToolbox.Lib
