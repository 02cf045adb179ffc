import WalletToolbox.Laws.Manager

/-! # The partition of the stores

One pass keeps a list of all stores seen so far and swaps its head when the chosen one takes over.
Each later result reads that the head and the others are those stores in another order, and that
the head is the first enabled one. -/

namespace WalletToolbox.Manager

open WalletToolbox.Lib WalletToolbox.Lib.Calls WalletToolbox.Storage

/-- The first store whose user names it, or the first store. -/
def firstEnabled (views : List View) : Nat :=
  (views.findIdx? View.enabled).getD 0

/-- A choice of the active store, the backups and the conflicting stores among `views`. -/
structure PartitionOf (views : List View) (active : Nat) (backups conflicting : List Nat) : Prop where
  complete : ∀ i, i = active ∨ i ∈ backups ∨ i ∈ conflicting ↔ i < views.length
  activeApart : active ∉ backups ∧ active ∉ conflicting
  disjoint : ∀ i ∈ backups, i ∉ conflicting
  backupsOnce : backups.Nodup
  conflictingOnce : conflicting.Nodup
  activeFirst : active = firstEnabled views
  backup : ∀ i, ∀ v a : View, i ≠ active → views[i]? = some v → views[active]? = some a →
    (i ∈ backups ↔ v.activeStorage = a.storageIdentityKey)

/-! ## The first pass -/

theorem getD_view {views : List View} {i : Nat} {v : View} (h : views[i]? = some v) :
    views.getD i ⟨"", ""⟩ = v := by
  rw [List.getD_eq_getElem?_getD, h, Option.getD_some]

/-- What one more store does to the first enabled one. -/
theorem firstEnabled_take {views : List View} {k : Nat} {v : View} (hv : views[k]? = some v) :
    firstEnabled (views.take (k + 1)) =
      if v.enabled && ((views.take k).findIdx? View.enabled).isNone then k
      else firstEnabled (views.take k) := by
  obtain ⟨hlt, -⟩ := List.getElem?_eq_some_iff.mp hv
  unfold firstEnabled
  rw [List.take_add_one, hv, List.findIdx?_append, Option.toList_some]
  cases hfound : (views.take k).findIdx? View.enabled with
  | some j => simp
  | none =>
    cases henabled : v.enabled with
    | true => simp [henabled, Nat.min_eq_left (Nat.le_of_lt hlt)]
    | false => simp [henabled]

/-- The chosen store is enabled when any store before is. -/
theorem firstEnabled_enabled {views : List View} {k : Nat} (hlt : k < views.length) :
    (views.getD (firstEnabled (views.take (k + 1))) ⟨"", ""⟩).enabled =
      ((views.take (k + 1)).findIdx? View.enabled).isSome := by
  unfold firstEnabled
  cases hfound : (views.take (k + 1)).findIdx? View.enabled with
  | some j =>
    obtain ⟨hj, henabled, -⟩ := List.findIdx?_eq_some_iff_getElem.mp hfound
    have hjlt : j < views.length := by
      rw [List.length_take] at hj
      omega
    rw [List.getElem_take] at henabled
    simpa [List.getElem?_eq_getElem hjlt] using henabled
  | none =>
    have hnone := List.findIdx?_eq_none_iff.mp hfound
    have hpos : 0 < views.length := by omega
    have hmem : views[0] ∈ views.take (k + 1) := by
      rw [List.mem_take_iff_getElem]
      exact ⟨0, by omega, rfl⟩
    simpa [List.getElem?_eq_getElem hpos] using hnone _ hmem

/-- The first pass over `k` more stores. -/
theorem foldl_partitionStep {views : List View} {k : Nat} (hk : k < views.length) :
    let acc := (List.range' 1 k).foldl (partitionStep views) (0, [])
    acc.1 = firstEnabled (views.take (k + 1)) ∧ (acc.1 :: acc.2).Perm (List.range (k + 1)) := by
  induction k with
  | zero =>
    refine ⟨?_, List.Perm.refl _⟩
    cases views with
    | nil => cases hk
    | cons v rest => cases henabled : v.enabled <;> simp [firstEnabled, henabled]
  | succ k ih =>
    obtain ⟨hactive, hperm⟩ := ih (by omega)
    have hv : views[k + 1]? = some views[k + 1] := List.getElem?_eq_getElem hk
    have hactiveEnabled := @firstEnabled_enabled views k (by omega)
    rw [← hactive] at hactiveEnabled
    rw [List.range'_concat, List.foldl_append, List.foldl_cons, List.foldl_nil]
    simp only [Nat.one_mul, Nat.add_comm 1 k]
    rw [firstEnabled_take hv, ← hactive]
    generalize (List.range' 1 k).foldl (partitionStep views) (0, []) = acc at hactive hperm hactiveEnabled ⊢
    unfold partitionStep
    simp only [getD_view hv, hactiveEnabled, Option.not_isSome]
    by_cases hswap : (views[k + 1].enabled && ((views.take (k + 1)).findIdx? View.enabled).isNone) = true
    · rw [if_pos hswap, if_pos hswap, List.range_succ]
      refine ⟨rfl, ?_⟩
      -- the old head moves behind the others
      have hmoved : (acc.2 ++ [acc.1]).Perm (List.range (k + 1)) :=
        (List.perm_append_singleton acc.1 acc.2).trans hperm
      exact (hmoved.cons (k + 1)).trans (List.perm_append_singleton (k + 1) _).symm
    · rw [if_neg hswap, if_neg hswap, List.range_succ]
      exact ⟨rfl, hperm.append_right [k + 1]⟩

/-! ## The second pass -/

theorem partition_eq (views : List View) :
    partition views =
      let acc := ((List.range' 1 (views.length - 1)).foldl (partitionStep views) (0, []))
      let agrees := fun i => (views.getD i ⟨"", ""⟩).activeStorage ==
        (views.getD acc.1 ⟨"", ""⟩).storageIdentityKey
      (acc.1, acc.2.filter agrees, acc.2.filter fun i => !agrees i) := by
  unfold partition
  rw [List.range_eq_range', List.drop_range']

theorem partitionOf_partition {views : List View} (h : views ≠ []) :
    PartitionOf views (partition views).1 (partition views).2.1 (partition views).2.2 := by
  have hpos := List.length_pos_iff.mpr h
  obtain ⟨hactive, hperm⟩ := @foldl_partitionStep views (views.length - 1) (by omega)
  rw [Nat.sub_add_cancel hpos] at hactive hperm
  rw [List.take_length] at hactive
  rw [partition_eq]
  generalize (List.range' 1 (views.length - 1)).foldl (partitionStep views) (0, []) = acc
    at hactive hperm ⊢
  have hnodup : (acc.1 :: acc.2).Nodup := hperm.nodup_iff.mpr List.nodup_range
  rw [List.nodup_cons] at hnodup
  have hmem : ∀ i, i = acc.1 ∨ i ∈ acc.2 ↔ i < views.length := by
    intro i
    rw [← List.mem_cons, hperm.mem_iff, List.mem_range]
  constructor
  case complete =>
    intro i
    rw [← hmem, List.mem_filter, List.mem_filter, ← and_or_left, Bool.not_eq_true', ← Bool.not_eq_true]
    simp only [Decidable.em, and_true]
  case activeApart =>
    exact ⟨fun hin => hnodup.1 (List.mem_filter.mp hin).1, fun hin => hnodup.1 (List.mem_filter.mp hin).1⟩
  case disjoint =>
    intro i hin hnot
    have hagrees := (List.mem_filter.mp hin).2
    have hdiffers := (List.mem_filter.mp hnot).2
    simp only [hagrees] at hdiffers
    cases hdiffers
  case backupsOnce => exact hnodup.2.filter _
  case conflictingOnce => exact hnodup.2.filter _
  case activeFirst => exact hactive
  case backup =>
    intro i v a hne hv ha
    have hin : i ∈ acc.2 := by
      obtain ⟨hlt, -⟩ := List.getElem?_eq_some_iff.mp hv
      exact ((hmem i).mpr hlt).resolve_left hne
    simp only [List.mem_filter, getD_view hv, getD_view ha, beq_iff_eq, hin, true_and]

/-- What the manager has read from its stores. -/
def WalletStorageManager.readViews (m : WalletStorageManager) : List (Option View) :=
  m.stores.map fun managed =>
    managed.cached.map fun r => ⟨r.1.storageIdentityKey, r.2.activeStorage⟩

theorem Partitioned.readViews {st st' : State} (h : Partitioned st st') :
    st'.manager.readViews = st.views.map some := by
  have hviews : st.views = (st.manager.stores.map (·.storage)).map
      (World.view st.world st.manager.identityKey) := by
    rw [State.views, List.map_map]
    rfl
  rw [hviews, ← h.storages, List.map_map, List.map_map]
  refine List.map_congr_left fun managed hmem => ?_
  obtain ⟨r, hr, hsettings, hchoice⟩ := h.cached managed hmem
  simp only [hr, Option.map_some, Function.comp_apply, hsettings, hchoice, World.view]

example : partition [⟨"a", "b"⟩, ⟨"b", "b"⟩, ⟨"c", "c"⟩, ⟨"d", "b"⟩] = (1, [0, 3], [2]) := by
  decide +kernel

/-- Whatever the stores say, the call succeeds and the manager has split all of them. -/
theorem doMakeAvailable_partitions {st : State} (h : st.manager.stores ≠ []) :
    ∃ st', outcome doMakeAvailable st = (.ok (), st') ∧
      st'.manager.readViews = st.views.map some ∧
      ∃ active, st'.manager.activeIndex = some active ∧
        PartitionOf st.views active st'.manager.backupIndices st'.manager.conflictingActiveIndices := by
  obtain ⟨_, st', hrun, hpart⟩ := (leaves_doMakeAvailable_nonempty h).total
  refine ⟨st', hrun, hpart.readViews, _, hpart.activeIndex, ?_⟩
  have hviews : st.views ≠ [] := by
    intro hnil
    exact h (List.map_eq_nil_iff.mp hnil)
  rw [hpart.backupIndices, hpart.conflictingActiveIndices]
  exact partitionOf_partition hviews

/-- A database whose user has chosen a store. -/
def choosing (choice : String) : Store :=
  (Prog.run Stmt.exec (do
    let (user, _) ← findOrInsertUser "alice"
    exec (.updateUser user.userId { activeStorage := some choice })) .empty).2

/-- In the first two databases the user has chosen the second, in the third the third. -/
def threeStores : State :=
  ⟨fun i =>
    { settings := { storageIdentityKey := toString i, storageName := "" }
      store := choosing (if i = 2 then "2" else "1") },
    .new "alice" (some 0) [1, 2]⟩

/-- The second takes over from the first, which backs it up; the third is in conflict. -/
theorem doMakeAvailable_partitions_three :
    partition threeStores.views = (1, [0], [2]) ∧
    ∃ st', outcome doMakeAvailable threeStores = (.ok (), st') ∧
      st'.manager.readViews = threeStores.views.map some ∧
      ∃ active, st'.manager.activeIndex = some active ∧ PartitionOf threeStores.views active
        st'.manager.backupIndices st'.manager.conflictingActiveIndices :=
  ⟨by decide +kernel, doMakeAvailable_partitions (List.cons_ne_nil _ _)⟩

end WalletToolbox.Manager
