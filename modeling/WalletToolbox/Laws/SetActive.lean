import WalletToolbox.Laws.ActiveStore

/-! # What set_active reports

The choice is written to one store and reaches the others as a user record inside sync chunks.
A record is offered only when it is not older than the window of the pair, and taken only when it
is strictly newer than the row it meets; so the call reports a choice that some store does not hold
exactly when one of the two comparisons fails. -/

namespace WalletToolbox.Manager

open WalletToolbox.Lib WalletToolbox.Lib.Calls WalletToolbox.Storage
open WalletToolbox.Lib.Prog hiding pure exec

variable {env : Env} {st : State} {s : Store}

/-! ## A round -/

/-- A user record as a chunk offers it: only when the window does not reach it. -/
def offered (window : Option Nat) (c : Choice) : Option Choice :=
  if window.any (c.updatedAt ≤ ·) then none else some c

/-- Writing the state of a pair moves the window only at the end of the round. -/
theorem windowOf_updateSyncState {k origin : String} {id n : Nat} {p : SyncStatePartial} {s' : Store}
    (h : (Stmt.updateSyncState id p).exec s = .ok (n, s')) (hp : p.syncedAt = none) :
    s'.windowOf k origin = s.windowOf k origin := by
  have hs' := (exec_eq h).2
  unfold Tables.windowOf Tables.syncStateOf
  rw [show s'.userOf k = s.userOf k by rw [Tables.userOf, exec_users h (by rintro ⟨⟩)]; rfl]
  cases s.userOf k with
  | none => rfl
  | some u =>
    rw [Option.bind_some, Option.bind_some, hs']
    have hfirst := @Table.first_update _ _ s.syncStates (fun ss => ss.syncStateId == id)
      (fun ss => ss.userId == u.userId && ss.storageIdentityKey == origin) (p.apply s.now)
      (fun _ => rfl) fun _ => rfl
    refine (congrArg (Option.bind · SyncState.syncedAt) hfirst).trans ?_
    cases s.syncStates.first fun ss => ss.userId == u.userId && ss.storageIdentityKey == origin with
    | none => rfl
    | some ss =>
      rw [Option.map_some, Option.bind_some, Option.bind_some]
      by_cases hid : (ss.syncStateId == id) = true
      · rw [if_pos hid, SyncStatePartial.apply, hp, Option.none_or]
      · rw [if_neg hid]

/-- One turn takes the reader's choice when it is offered and newer. -/
theorem wp_syncChunk_choice {pair : SyncPair} {reader : Store} :
    wp Stmt.exec (syncChunk pair reader) (fun r s' =>
      s'.choiceOf pair.auth.identityKey = (s.choiceOf pair.auth.identityKey).received
        (offered (s.windowOf pair.auth.identityKey pair.reader.storageIdentityKey)
          (reader.choiceOf pair.auth.identityKey)) ∧
      (r.2.2.done = false →
        s'.windowOf pair.auth.identityKey pair.reader.storageIdentityKey =
          s.windowOf pair.auth.identityKey pair.reader.storageIdentityKey)) (fun _ => True) s := by
  refine wp_syncChunk (.inr fun _ => trivial) fun ss s₁ map chunk hopen _ _ hchunk => ?_
  obtain ⟨v, offsets, hv, _, _, hfields⟩ := getSyncChunk_ok hchunk
  have hkey : chunk.userIdentityKey = pair.auth.identityKey := by rw [hfields]; rfl
  have huser : chunk.user.map User.choice = offered
      (s.windowOf pair.auth.identityKey pair.reader.storageIdentityKey)
      (reader.choiceOf pair.auth.identityKey) := by
    have hc : reader.choiceOf pair.auth.identityKey = v.choice := choiceOf_of_userOf hv
    have hoffer : chunk.user = if ss.syncedAt.any (v.updatedAt ≤ ·) then none else some v := by
      rw [hfields]
      rfl
    rw [hoffer, hc, ← hopen.window]
    show _ = if ss.syncedAt.any (v.updatedAt ≤ ·) then none else some v.choice
    by_cases hreached : ss.syncedAt.any (v.updatedAt ≤ ·) = true
    · rw [if_pos hreached, if_pos hreached, Option.map_none]
    · rw [if_neg hreached, if_neg hreached, Option.map_some]
  obtain ⟨u, hu, _⟩ := Option.bind_eq_some_iff.mp hopen.state
  refine wp_mergeChunk (by rw [hkey]; exact hu) (getSyncChunk_user hchunk)
    fun updates s₂ hchoice hid hsync _ => ?_
  refine wp_mono wp_mergeEntities_frame (fun merged s₃ hframe n s₄ hexec => ?_) fun _ _ => trivial
  rw [hkey] at hchoice hid
  constructor
  · rw [choiceOf_congr (exec_users hexec nofun), choiceOf_congr hframe.1, hchoice, hopen.choice, huser]
  · intro hdone
    have hempty : chunk.isEmpty = false := hdone
    rw [windowOf_updateSyncState hexec (by simp [chunkOutcome, hempty])]
    have hstate : s₃.syncStateOf pair.auth.identityKey pair.reader.storageIdentityKey = some ss := by
      rw [← hopen.state]
      refine syncStateOf_congr ?_ (hframe.2.trans hsync)
      rw [Tables.userOf, hframe.1, hu, Option.map_some]
      exact hid
    rw [← hopen.window, Tables.windowOf, hstate, Option.bind_some]

/-- A round that ends takes the reader's choice when it is offered and newer. -/
theorem wp_syncLoop_choice {pair : SyncPair} {reader : Store} (fuel : Nat) (p : SyncProgress) :
    wp Stmt.exec (syncLoop pair reader fuel p) (fun _ s' =>
      s'.choiceOf pair.auth.identityKey = (s.choiceOf pair.auth.identityKey).received
        (offered (s.windowOf pair.auth.identityKey pair.reader.storageIdentityKey)
          (reader.choiceOf pair.auth.identityKey))) (fun _ => True) s := by
  induction fuel generalizing s p with
  | zero => trivial
  | succ fuel ih =>
    unfold syncLoop
    rw [wp_bind]
    refine wp_mono wp_syncChunk_choice (fun r s₁ h₁ => ?_) fun _ h => h
    obtain ⟨args, chunk, r⟩ := r
    obtain ⟨hchoice, hwindow⟩ := h₁
    refine wp_ite (fun _ => hchoice) fun hdone => wp_ite (fun _ => trivial) fun _ => ?_
    refine wp_mono (ih _) (fun _ s₂ h₂ => ?_) fun _ h => h
    -- the second offer changes nothing: the first one was taken, or is refused again
    rw [h₂, hchoice, hwindow (by simpa using hdone), Choice.received_received]

/-! ## Rounds between providers -/

/-- The user's choice in the database of a provider. -/
def State.choice (st : State) (storage : Nat) : Choice :=
  (st.world storage).store.choiceOf st.manager.identityKey

/-- The time up to which a provider has read from another one. -/
def State.window (st : State) (storage : Nat) (origin : String) : Option Nat :=
  (st.world storage).store.windowOf st.manager.identityKey origin

/-- The identity key of a provider. -/
def State.keyOf (st : State) (storage : Nat) : String :=
  (st.world storage).settings.storageIdentityKey

/-- Only one database changed. -/
structure OnlyStore (st st' : State) (storage : Nat) : Prop where
  manager : st'.manager = st.manager
  settings : ∀ i, (st'.world i).settings = (st.world i).settings
  other : ∀ i, i ≠ storage → st'.world i = st.world i

theorem onlyStore_withStore (st : State) (storage : Nat) (store : Store) :
    OnlyStore st (st.withStore storage store) storage :=
  ⟨rfl, fun i => State.withStore_settings storage i store, fun _ hi => State.withStore_of_ne store hi⟩

namespace OnlyStore

variable {st' : State} {storage : Nat}

theorem choice (h : OnlyStore st st' storage) {i : Nat} (hi : i ≠ storage) :
    st'.choice i = st.choice i := by
  rw [State.choice, h.other i hi, h.manager, State.choice]

theorem window (h : OnlyStore st st' storage) {i : Nat} (hi : i ≠ storage) (origin : String) :
    st'.window i origin = st.window i origin := by
  rw [State.window, h.other i hi, h.manager, State.window]

theorem keyOf (h : OnlyStore st st' storage) (i : Nat) : st'.keyOf i = st.keyOf i := by
  rw [State.keyOf, h.settings, State.keyOf]

theorem known (h : OnlyStore st st' storage) (hknown : Known st) : Known st' := by
  constructor
  · rw [h.manager]
    intro managed hmem r hr
    rw [h.settings]
    exact hknown.cached managed hmem r hr
  · rw [h.manager]
    exact hknown.known

theorem trans {st'' : State} (h : OnlyStore st st' storage) (h' : OnlyStore st' st'' storage) :
    OnlyStore st st'' storage :=
  ⟨h'.manager.trans h.manager, fun i => (h'.settings i).trans (h.settings i),
    fun i hi => (h'.other i hi).trans (h.other i hi)⟩

end OnlyStore

/-- The choice of a store after a round that reads from another one. -/
def State.passed (st : State) (source storage : Nat) : Choice :=
  (st.choice storage).received (offered (st.window storage (st.keyOf source)) (st.choice source))

theorem leaves_syncStores_choice {writer reader : Nat} {writerSettings readerSettings : Settings}
    (hreader : readerSettings = (st.world reader).settings) :
    Leaves (syncStores env writer reader writerSettings readerSettings)
      (fun _ st' => OnlyStore st st' writer ∧ st'.choice writer = st.passed reader writer)
      (fun _ => True) st := by
  unfold syncStores
  rw [leaves_bind, leaves_get, leaves_onStore]
  refine wp_mono (wp_syncLoop_choice _ _) (fun _ s' hs' => ?_) fun _ _ => trivial
  refine ⟨onlyStore_withStore st writer s', ?_⟩
  subst hreader
  rw [State.choice, State.withStore_self]
  exact hs'

/-- Bringing the backups up to date spreads no choice but the one of the active store. -/
theorem leaves_updateBackups_chosen (hknown : Known st) (havail : st.manager.isAvailable = true) :
    Leaves (updateBackups env) (fun _ st' => st'.manager = st.manager ∧
      ∀ key, (∀ managed ∈ st.manager.stores, (st.choice managed.storage).activeStorage = key) →
        ∀ managed ∈ st.manager.stores, (st'.choice managed.storage).activeStorage = key)
      (fun _ => True) st := by
  unfold updateBackups makeAvailable
  simp only [leaves_bind, leaves_get, havail, if_true, leaves_pure]
  refine leaves_requireActive (fun active _ => ?_) trivial
  refine leaves_storageOf (fun activeEntry hactive => ?_) trivial
  refine leaves_settingsOf (fun activeSettings hsettings => ?_) trivial
  let I : State → Prop := fun st' => st'.manager = st.manager ∧
    (∀ i, (st'.world i).settings = (st.world i).settings) ∧
    ∀ key, (∀ managed ∈ st.manager.stores, (st.choice managed.storage).activeStorage = key) →
      ∀ managed ∈ st.manager.stores, (st'.choice managed.storage).activeStorage = key
  refine (leaves_forM (I := I) (fun i _ st₁ h₁ => ?_) ⟨rfl, fun _ => rfl, fun _ h => h⟩).mono
    (fun _ _ h => ⟨h.1, h.2.2⟩) fun _ h => h
  obtain ⟨hmanager, hset, hchosen⟩ := h₁
  simp only [leaves_bind]
  refine leaves_storageOf (fun entry hentry => ?_) trivial
  refine leaves_settingsOf (fun settings _ => ?_) trivial
  have hreader : activeSettings = (st₁.world activeEntry.storage).settings := by
    rw [hset, hknown.cachedSettings hsettings hactive]
  refine leaves_tryCatch ((leaves_syncStores_choice hreader).mono ?_ fun _ _ _ => trivial)
  rintro _ st₂ ⟨honly, hpassed⟩
  refine ⟨honly.manager.trans hmanager, fun j => (honly.settings j).trans (hset j), ?_⟩
  intro key hkey managed hmem
  have hold := hchosen key hkey
  by_cases hj : managed.storage = entry.storage
  · rw [hj, hpassed, State.passed]
    have hown : (st₁.choice entry.storage).activeStorage = key := by
      rw [hmanager] at hentry
      exact hold entry (List.mem_of_getElem? hentry)
    have hread := hold activeEntry (List.mem_of_getElem? hactive)
    unfold offered
    split
    · exact hown
    · unfold Choice.received
      simp only
      split
      · exact hread
      · exact hown
  · rw [honly.choice hj]
    exact hold managed hmem

/-! ## Passing the choice on -/

/-- The stores have different identity keys. -/
def State.DistinctKeys (st : State) : Prop :=
  (st.manager.stores.map fun managed => st.keyOf managed.storage).Nodup

theorem State.DistinctKeys.index (h : st.DistinctKeys) {i j : Nat} {a b : ManagedStorage}
    (ha : st.manager.stores[i]? = some a) (hb : st.manager.stores[j]? = some b)
    (hkey : st.keyOf a.storage = st.keyOf b.storage) : i = j := by
  have hi : i < (st.manager.stores.map fun managed => st.keyOf managed.storage).length := by
    rw [List.length_map]
    exact (List.getElem?_eq_some_iff.mp ha).1
  refine (List.getElem?_inj hi h).mp ?_
  rw [List.getElem?_map, List.getElem?_map, ha, hb, Option.map_some, Option.map_some, hkey]

/-- What the loop over some entries leaves: each of them but the source has made a round. -/
structure PassedOn (st st' : State) (source : Nat) (is : List Nat) : Prop where
  manager : st'.manager = st.manager
  settings : ∀ i, (st'.world i).settings = (st.world i).settings
  passed : ∀ i ∈ is, ∀ managed, st.manager.stores[i]? = some managed → managed.storage ≠ source →
    st'.choice managed.storage = st.passed source managed.storage
  other : ∀ j, (∀ i ∈ is, ∀ managed, st.manager.stores[i]? = some managed →
    managed.storage = j → j = source) → st'.world j = st.world j

theorem leaves_passOne_forM {m : WalletStorageManager} {source : Nat} {settings : Settings}
    (hkeys : st.DistinctKeys) (hsource : ∃ i : Nat, ∃ managed : ManagedStorage,
      st.manager.stores[i]? = some managed ∧ managed.storage = source) (hsettings : settings = (st.world source).settings)
    (hcached : ∀ (i : Nat) managed, st.manager.stores[i]? = some managed →
      m.cachedSettings i = some (st.world managed.storage).settings)
    {is : List Nat} (his : is.Nodup) :
    Leaves (forM is (passOne env m source settings)) (fun _ st' => PassedOn st st' source is)
      (fun _ => True) st := by
  induction is generalizing st with
  | nil => exact ⟨rfl, fun _ => rfl, nofun, fun _ _ => rfl⟩
  | cons i is ih =>
    rw [List.forM_cons, leaves_bind]
    unfold passOne
    rw [leaves_bind]
    refine leaves_storageOf (fun entry hentry => ?_) trivial
    rw [hcached i entry hentry]
    simp only
    obtain ⟨i₀, sourceEntry, hsourceEntry, rfl⟩ := hsource
    -- an entry other than `i` is another provider
    have hother : ∀ j ∈ is, ∀ managed, st.manager.stores[j]? = some managed →
        managed.storage ≠ entry.storage := by
      intro j hj managed hmanaged heq
      have hij := hkeys.index hmanaged hentry (by rw [heq])
      exact (List.nodup_cons.mp his).1 (hij ▸ hj)
    by_cases hown : ((st.world entry.storage).settings.storageIdentityKey ==
        settings.storageIdentityKey) = true
    · rw [if_pos hown, leaves_pure]
      have hself : entry.storage = sourceEntry.storage := by
        have hkey : st.keyOf entry.storage = st.keyOf sourceEntry.storage := by
          rw [hsettings] at hown
          exact eq_of_beq hown
        have hidx := hkeys.index hentry hsourceEntry hkey
        rw [hidx, hsourceEntry, Option.some.injEq] at hentry
        rw [hentry]
      refine (ih hkeys ⟨i₀, sourceEntry, hsourceEntry, rfl⟩ hsettings hcached
        (List.nodup_cons.mp his).2).mono (fun _ st' h => ?_) fun _ h => h
      refine ⟨h.manager, h.settings, ?_, ?_⟩
      · intro j hj managed hmanaged hne
        rcases List.mem_cons.mp hj with rfl | hj
        · rw [hentry, Option.some.injEq] at hmanaged
          exact absurd (hmanaged ▸ hself) hne
        · exact h.passed j hj managed hmanaged hne
      · intro j hj
        exact h.other j fun i' hi' => hj i' (List.mem_cons_of_mem _ hi')
    · rw [if_neg hown, leaves_bind]
      have hne : entry.storage ≠ sourceEntry.storage := by
        intro heq
        rw [hsettings, heq] at hown
        simp at hown
      refine (leaves_syncStores_choice hsettings).mono ?_ fun _ _ => trivial
      rintro _ st₁ ⟨honly, hpassed⟩
      rw [leaves_pure]
      have hkeys₁ : st₁.DistinctKeys := by
        unfold State.DistinctKeys
        rw [honly.manager]
        simp only [honly.keyOf]
        exact hkeys
      have hsource₁ : st₁.world sourceEntry.storage = st.world sourceEntry.storage :=
        honly.other _ (Ne.symm hne)
      refine (ih hkeys₁ ⟨i₀, sourceEntry, by rw [honly.manager]; exact hsourceEntry, rfl⟩
        (by rw [hsource₁]; exact hsettings) ?_ (List.nodup_cons.mp his).2).mono
        (fun _ st' h => ?_) fun _ h => h
      · intro j managed hmanaged
        rw [honly.manager] at hmanaged
        rw [honly.settings]
        exact hcached j managed hmanaged
      · refine ⟨h.manager.trans honly.manager, fun j => (h.settings j).trans (honly.settings j), ?_, ?_⟩
        · intro j hj managed hmanaged hsrc
          rcases List.mem_cons.mp hj with rfl | hj
          · -- the rest of the loop leaves the entry alone
            rw [hentry, Option.some.injEq] at hmanaged
            subst hmanaged
            rw [← hpassed]
            have hworld : st'.world entry.storage = st₁.world entry.storage := by
              refine h.other _ fun j hj managed hmanaged heq => ?_
              rw [honly.manager] at hmanaged
              exact absurd heq (hother j hj managed hmanaged)
            rw [State.choice, hworld, h.manager, State.choice]
          · rw [h.passed j hj managed (by rw [honly.manager]; exact hmanaged) hsrc]
            have hj' := hother j hj managed hmanaged
            simp only [State.passed, honly.choice hj', honly.keyOf, honly.window hj',
              honly.choice (Ne.symm hne)]
        · intro j hj
          rw [h.other j ?_, honly.other j ?_]
          · rintro rfl
            exact hne (hj i List.mem_cons_self entry hentry rfl)
          · intro i' hi' managed hmanaged
            rw [honly.manager] at hmanaged
            exact hj i' (List.mem_cons_of_mem _ hi') managed hmanaged

/-! ## The partition of stores that agree -/

/-- A store of the first pass takes over, and then it is chosen, or it is put aside. -/
theorem partitionStep_cases (views : List View) (acc : Nat × List Nat) (i : Nat) :
    (partitionStep views acc i = (i, acc.2 ++ [acc.1]) ∧ (views.getD i ⟨"", ""⟩).enabled = true) ∨
    (partitionStep views acc i = (acc.1, acc.2 ++ [i]) ∧
      ((views.getD i ⟨"", ""⟩).enabled = true → (views.getD acc.1 ⟨"", ""⟩).enabled = true)) := by
  unfold partitionStep
  simp only
  cases hi : (views.getD i ⟨"", ""⟩).enabled <;> cases ha : (views.getD acc.1 ⟨"", ""⟩).enabled <;> simp

/-- The first pass keeps every store and ends with a chosen one if there is one. -/
theorem foldl_partitionStep_mem (views : List View) (is : List Nat) (acc : Nat × List Nat) :
    (∀ i, i ∈ (is.foldl (partitionStep views) acc).1 :: (is.foldl (partitionStep views) acc).2 ↔
      i ∈ acc.1 :: acc.2 ∨ i ∈ is) ∧
    ((∃ i ∈ acc.1 :: is, (views.getD i ⟨"", ""⟩).enabled = true) →
      (views.getD (is.foldl (partitionStep views) acc).1 ⟨"", ""⟩).enabled = true) := by
  induction is generalizing acc with
  | nil => simp
  | cons i is ih =>
    rw [List.foldl_cons]
    obtain ⟨hmem, henabled⟩ := ih (partitionStep views acc i)
    rcases partitionStep_cases views acc i with ⟨hstep, hi⟩ | ⟨hstep, hi⟩
    · rw [hstep] at hmem henabled ⊢
      refine ⟨fun j => ?_, fun _ => henabled ⟨i, List.mem_cons_self, hi⟩⟩
      rw [hmem]
      simp only [List.mem_cons, List.mem_append, List.not_mem_nil, or_false]
      constructor <;> grind
    · rw [hstep] at hmem henabled ⊢
      refine ⟨fun j => ?_, ?_⟩
      · rw [hmem]
        simp only [List.mem_cons, List.mem_append, List.not_mem_nil, or_false]
        constructor <;> grind
      · rintro ⟨j, hj, hjenabled⟩
        apply henabled
        rcases List.mem_cons.mp hj with rfl | hj
        · exact ⟨_, List.mem_cons_self, hjenabled⟩
        · rcases List.mem_cons.mp hj with rfl | hj
          · exact ⟨acc.1, List.mem_cons_self, hi hjenabled⟩
          · exact ⟨j, List.mem_cons_of_mem _ hj, hjenabled⟩

theorem mem_range_iff {n i : Nat} (hn : 0 < n) : i = 0 ∨ i ∈ (List.range n).drop 1 ↔ i < n := by
  constructor
  · rintro (rfl | h)
    · exact hn
    · exact (mem_drop_range h).2
  · intro h
    have hmem := List.mem_range.mpr h
    rw [← List.take_append_drop 1 (List.range n), List.mem_append] at hmem
    refine hmem.imp_left fun h0 => ?_
    obtain ⟨n, rfl⟩ := Nat.exists_eq_succ_of_ne_zero (Nat.ne_of_gt hn)
    rw [List.range_succ_eq_map] at h0
    simpa using h0

/-- The active store of a partition is one of the stores, and every store agrees with it unless it
is listed as conflicting. -/
theorem partition_spec {views : List View} (hviews : 0 < views.length) :
    (partition views).1 < views.length ∧
      ((∃ i < views.length, (views.getD i ⟨"", ""⟩).enabled = true) →
        (views.getD (partition views).1 ⟨"", ""⟩).enabled = true) ∧
      ((∀ i < views.length, (views.getD i ⟨"", ""⟩).activeStorage =
        (views.getD (partition views).1 ⟨"", ""⟩).storageIdentityKey) → (partition views).2.2 = []) ∧
      ((partition views).2.2 = [] → ∀ i < views.length, i = (partition views).1 ∨
        (views.getD i ⟨"", ""⟩).activeStorage =
          (views.getD (partition views).1 ⟨"", ""⟩).storageIdentityKey) := by
  obtain ⟨hmem, henabled⟩ := foldl_partitionStep_mem views ((List.range views.length).drop 1) (0, [])
  unfold partition
  generalize ((List.range views.length).drop 1).foldl (partitionStep views) (0, []) = pass at *
  obtain ⟨active, others⟩ := pass
  have hmem : ∀ i, i ∈ active :: others ↔ i < views.length := by
    intro i
    rw [hmem, ← mem_range_iff hviews]
    simp
  simp only
  refine ⟨(hmem active).mp List.mem_cons_self, ?_, ?_, ?_⟩
  · rintro ⟨i, hi, hienabled⟩
    apply henabled
    rcases (mem_range_iff hviews).mpr hi with rfl | hi
    · exact ⟨0, List.mem_cons_self, hienabled⟩
    · exact ⟨i, List.mem_cons_of_mem _ hi, hienabled⟩
  · intro hagree
    rw [List.filter_eq_nil_iff]
    intro i hi
    have hlt := (hmem i).mp (List.mem_cons_of_mem _ hi)
    rw [hagree i hlt]
    simp
  · intro hnil i hi
    rw [List.filter_eq_nil_iff] at hnil
    rcases List.mem_cons.mp ((hmem i).mpr hi) with h | h
    · exact .inl h
    · exact .inr (by simpa using hnil i h)

/-! ## What is reported -/

/-- What `set_active` promises: the store with the key is active and enabled, no store conflicts, and
the user's row in every database names it. -/
structure Reported (st : State) (key : String) : Prop where
  active : st.manager.getActiveStore = some key
  enabled : st.manager.isActiveEnabled = true
  conflicting : st.manager.getConflictingStores = []
  chosen : ∀ managed ∈ st.manager.stores, (st.choice managed.storage).activeStorage = key

/-- The entries before and after a partition. -/
theorem Partitioned.entry {st' : State} (h : Partitioned st st') {i : Nat} {managed : ManagedStorage}
    (hm : st.manager.stores[i]? = some managed) :
    ∃ managed' r, st'.manager.stores[i]? = some managed' ∧ managed'.storage = managed.storage ∧
      managed'.cached = some r ∧ r.1 = (st.world managed.storage).settings ∧
      r.2.activeStorage = (st.choice managed.storage).activeStorage := by
  have hstorage := congrArg (·[i]?) h.storages
  simp only [List.getElem?_map, hm, Option.map_some] at hstorage
  obtain ⟨managed', hm', heq⟩ := Option.map_eq_some_iff.mp hstorage
  obtain ⟨r, hr, hread⟩ := h.cached managed' (List.mem_of_getElem? hm')
  refine ⟨managed', r, hm', heq, hr, ?_, ?_⟩
  · rw [hread.1, heq]
  · rw [hread.2, heq]
    rfl

theorem views_getD {i : Nat} {managed : ManagedStorage} (h : st.manager.stores[i]? = some managed) :
    st.views.getD i ⟨"", ""⟩ =
      ⟨st.keyOf managed.storage, (st.choice managed.storage).activeStorage⟩ := by
  rw [List.getD_eq_getElem?_getD, State.views, List.getElem?_map, h]
  rfl

/-- After a partition the manager reports a key exactly when every store had chosen it. -/
theorem Partitioned.reported_iff {st' : State} (h : Partitioned st st') {key : String}
    (hkey : ∃ i : Nat, ∃ managed : ManagedStorage, st.manager.stores[i]? = some managed ∧
      st.keyOf managed.storage = key) :
    (st'.manager.getActiveStore = some key ∧ st'.manager.isActiveEnabled = true ∧
        st'.manager.getConflictingStores = []) ↔
      ∀ managed ∈ st.manager.stores, (st.choice managed.storage).activeStorage = key := by
  have hlength : st.views.length = st.manager.stores.length := List.length_map _
  have hpos : 0 < st.views.length := by
    rw [hlength]
    exact List.length_pos_iff.mpr h.nonempty
  obtain ⟨hlt, henabled, hagree, hnil⟩ := partition_spec hpos
  obtain ⟨active, hactive⟩ : ∃ active, st.manager.stores[(partition st.views).1]? = some active := by
    rw [hlength] at hlt
    exact ⟨_, List.getElem?_eq_getElem hlt⟩
  obtain ⟨active', r, hactive', _, hcached, hsettings, huser⟩ := h.entry hactive
  have hactiveKey : st'.manager.getActiveStore = some (st.keyOf active.storage) := by
    simp only [WalletStorageManager.getActiveStore, h.activeIndex, Option.bind_some,
      WalletStorageManager.cachedSettings, hactive', hcached, Option.map_some, hsettings]
    rfl
  have hactiveEnabled : st'.manager.isActiveEnabled =
      ((partition st.views).2.2.isEmpty &&
        st.keyOf active.storage == (st.choice active.storage).activeStorage) := by
    simp only [WalletStorageManager.isActiveEnabled, h.activeIndex, h.conflictingActiveIndices,
      WalletStorageManager.cachedSettings, WalletStorageManager.cachedUser, hactive', hcached,
      Option.bind_some, Option.map_some, hsettings, huser]
    rfl
  rw [views_getD hactive] at henabled hagree hnil
  rw [hactiveKey, hactiveEnabled]
  constructor
  · rintro ⟨hk, henabled', _⟩ managed hmem
    rw [Option.some.injEq] at hk
    rw [Bool.and_eq_true, List.isEmpty_iff, beq_iff_eq] at henabled'
    obtain ⟨i, hi⟩ := List.mem_iff_getElem?.mp hmem
    have hilt : i < st.views.length := by
      rw [hlength]
      exact (List.getElem?_eq_some_iff.mp hi).1
    rcases hnil henabled'.1 i hilt with rfl | hagrees
    · rw [hactive, Option.some.injEq] at hi
      rw [← hi, ← henabled'.2, hk]
    · rw [views_getD hi] at hagrees
      exact hagrees.trans hk
  · intro hall
    have hown := hall active (List.mem_of_getElem? hactive)
    have hk : st.keyOf active.storage = key := by
      obtain ⟨i, managed, hi, hikey⟩ := hkey
      have hen := henabled ⟨i, by rw [hlength]; exact (List.getElem?_eq_some_iff.mp hi).1, by
        rw [views_getD hi, View.enabled]
        simp [hikey, hall managed (List.mem_of_getElem? hi)]⟩
      rw [View.enabled, hown] at hen
      exact eq_of_beq hen
    have hempty : (partition st.views).2.2 = [] := by
      apply hagree
      intro i hi
      rw [hlength] at hi
      have hi' := List.getElem?_eq_getElem hi
      rw [views_getD hi']
      simp only [hk]
      exact hall _ (List.mem_of_getElem? hi')
    refine ⟨by rw [hk], ?_, ?_⟩
    · rw [hempty, hk, hown]
      simp
    · rw [WalletStorageManager.getConflictingStores, h.conflictingActiveIndices, hempty, List.filterMap_nil]

/-! ## Writing the choice -/

/-- A store takes over a choice made at a time: it has made the same choice, or neither its own row
nor its window reaches the time. -/
def State.TakesOver (st : State) (source : Nat) (key : String) (stamp storage : Nat) : Prop :=
  (st.choice storage).activeStorage = key ∨
    ((st.choice storage).updatedAt < stamp ∧ ∀ w ∈ st.window storage (st.keyOf source), w < stamp)

theorem received_offered {own : Choice} {window : Option Nat} {key : String} {stamp : Nat} :
    (own.received (offered window ⟨key, stamp⟩)).activeStorage = key ↔
      own.activeStorage = key ∨ (own.updatedAt < stamp ∧ ∀ w ∈ window, w < stamp) := by
  have hwindow : window.any (stamp ≤ ·) = true ↔ ¬∀ w ∈ window, w < stamp := by
    cases window with
    | none => simp
    | some w => simp
  unfold offered
  by_cases hreached : window.any (stamp ≤ ·) = true
  · rw [if_pos hreached]
    have := hwindow.mp hreached
    simp only [Choice.received]
    tauto
  · rw [if_neg hreached]
    have hlt := Classical.not_not.mp fun h => hreached (hwindow.mpr h)
    simp only [Choice.received]
    by_cases hnewer : own.updatedAt < stamp
    · rw [if_pos hnewer]
      exact ⟨fun _ => .inr ⟨hnewer, hlt⟩, fun _ => rfl⟩
    · simp [hnewer]

/-- The databases after the choice was written to the source. -/
structure Written (st st' : State) (source : Nat) (key : String) (stamp : Nat) : Prop where
  storages : st'.manager.stores.map (·.storage) = st.manager.stores.map (·.storage)
  settings : ∀ i, (st'.world i).settings = (st.world i).settings
  own : st'.choice source = ⟨key, stamp⟩
  choice : ∀ i, i ≠ source → st'.choice i = st.choice i
  window : ∀ i, i ≠ source → ∀ origin, st'.window i origin = st.window i origin

theorem mem_storages {stores stores' : List ManagedStorage}
    (h : stores'.map (·.storage) = stores.map (·.storage)) {managed : ManagedStorage}
    (hm : managed ∈ stores) : ∃ managed' ∈ stores', managed'.storage = managed.storage := by
  have hmem : managed.storage ∈ stores'.map (·.storage) := by
    rw [h]
    exact List.mem_map_of_mem hm
  exact List.mem_map.mp hmem

/-- Once the choice has been passed on, every store holds it exactly when each of the others takes it
over. -/
theorem Written.passedOn_iff {st₁ st₂ : State} {source stamp : Nat} {key : String}
    (h : Written st st₁ source key stamp)
    (hpassed : PassedOn st₁ st₂ source (List.range st₁.manager.stores.length)) :
    (∀ managed ∈ st₂.manager.stores, (st₂.choice managed.storage).activeStorage = key) ↔
      ∀ managed ∈ st.manager.stores, managed.storage ≠ source →
        st.TakesOver source key stamp managed.storage := by
  have hsource : st₂.choice source = ⟨key, stamp⟩ := by
    rw [State.choice, hpassed.manager, hpassed.other source fun _ _ _ _ _ => rfl]
    exact h.own
  have hother : ∀ managed ∈ st₁.manager.stores, managed.storage ≠ source →
      ((st₂.choice managed.storage).activeStorage = key ↔
        st.TakesOver source key stamp managed.storage) := by
    intro managed hmem hne
    obtain ⟨i, hi⟩ := List.mem_iff_getElem?.mp hmem
    have hlt := (List.getElem?_eq_some_iff.mp hi).1
    rw [hpassed.passed i (List.mem_range.mpr hlt) managed hi hne, State.passed, h.own,
      h.choice _ hne, h.window _ hne, received_offered]
    simp only [State.TakesOver, State.keyOf, h.settings]
  rw [hpassed.manager]
  constructor
  · intro hall managed hmem hne
    obtain ⟨managed', hmem', heq⟩ := mem_storages h.storages hmem
    rw [← heq] at hne ⊢
    exact (hother managed' hmem' hne).mp (hall managed' hmem')
  · intro hall managed hmem
    by_cases hne : managed.storage = source
    · rw [hne, hsource]
    · obtain ⟨managed', hmem', heq⟩ := mem_storages h.storages.symm hmem
      refine (hother managed hmem hne).mpr ?_
      rw [← heq] at hne ⊢
      exact hall managed' hmem' hne

theorem Known.cachedSettings_some (h : Known st) (havail : st.manager.isAvailable = true) {i : Nat}
    {managed : ManagedStorage} (hm : st.manager.stores[i]? = some managed) :
    st.manager.cachedSettings i = some (st.world managed.storage).settings := by
  have hmem := List.mem_of_getElem? hm
  obtain ⟨r, hr⟩ := Option.ne_none_iff_exists'.mp (h.known havail managed hmem)
  rw [WalletStorageManager.cachedSettings, hm, Option.bind_some, hr, Option.map_some,
    h.cached managed hmem r hr]

/-- The entries before and after the cached users were overwritten. -/
theorem cacheChoice_entry (m : WalletStorageManager) (key : String) (i : Nat) :
    (∀ managed, m.stores[i]? = some managed →
      ∃ managed', (m.cacheChoice key).stores[i]? = some managed' ∧ managed'.storage = managed.storage) ∧
    ∀ managed', (m.cacheChoice key).stores[i]? = some managed' →
      ∃ managed, m.stores[i]? = some managed ∧ managed.storage = managed'.storage := by
  have hstorage := congrArg (·[i]?) (cacheChoice_storages m key)
  simp only [List.getElem?_map] at hstorage
  constructor
  · intro managed hm
    rw [hm, Option.map_some] at hstorage
    exact Option.map_eq_some_iff.mp hstorage
  · intro managed' hm
    rw [hm, Option.map_some] at hstorage
    exact Option.map_eq_some_iff.mp hstorage.symm

/-- The choice is written to the source and passed on; the partition then sees every store's own
row. -/
theorem leaves_writeChoice_reported (hknown : Known st) (havail : st.manager.isAvailable = true)
    (hkeys : st.DistinctKeys) {now i : Nat} {key role : String} {source : ManagedStorage}
    (hsource : st.manager.stores[i]? = some source)
    (hkey : ∃ i : Nat, ∃ managed : ManagedStorage, st.manager.stores[i]? = some managed ∧
      st.keyOf managed.storage = key) :
    Leaves (writeChoice env now key st.manager i role)
      (fun _ st' => Known st' ∧ st'.manager.isAvailable = true ∧
        ((st'.manager.getActiveStore = some key ∧ st'.manager.isActiveEnabled = true ∧
            st'.manager.getConflictingStores = [] ↔
          ∀ managed ∈ st.manager.stores, managed.storage ≠ source.storage →
            st.TakesOver source.storage key (toSeconds now) managed.storage) ∧
        ((∀ managed ∈ st.manager.stores, managed.storage ≠ source.storage →
            st.TakesOver source.storage key (toSeconds now) managed.storage) →
          ∀ managed ∈ st'.manager.stores, (st'.choice managed.storage).activeStorage = key)))
      (fun _ => True) st := by
  unfold writeChoice
  rw [leaves_bind]
  refine leaves_storageOf (fun entry hentry => ?_) trivial
  obtain rfl : source = entry := by
    rw [hsource, Option.some.injEq] at hentry
    exact hentry
  rw [leaves_bind]
  refine leaves_settingsOf (fun settings hsettings => ?_) trivial
  have hsettings := hknown.cachedSettings hsettings hsource
  cases st.manager.cachedUser i with
  | none => trivial
  | some user =>
    simp only [leaves_bind]
    unfold tickStore
    rw [leaves_modify, leaves_onStore]
    refine wp_setActive (fun _ s hchoice _ => ?_) fun _ _ => trivial
    have hone := (onlyStore_withStore st source.storage ((st.world source.storage).store.tick now)).trans
      (onlyStore_withStore _ source.storage s)
    have hown : State.choice ((st.withStore source.storage
        ((st.world source.storage).store.tick now)).withStore source.storage s) source.storage =
          ⟨key, toSeconds now⟩ := by
      rw [State.choice, State.withStore_self]
      refine (hchoice st.manager.identityKey).trans ?_
      rw [if_pos rfl, State.withStore_self]
      rfl
    generalize (st.withStore source.storage ((st.world source.storage).store.tick now)).withStore
      source.storage s = st₀ at hone hown ⊢
    rw [leaves_modify, hone.manager]
    have hwritten : Written st { st₀ with manager := st.manager.cacheChoice key } source.storage key
        (toSeconds now) := by
      refine ⟨cacheChoice_storages st.manager key, hone.settings, ?_, ?_, ?_⟩
      · rw [← hown, State.choice, State.choice, hone.manager]
        rfl
      · intro j hj
        rw [← hone.choice hj, State.choice, State.choice, hone.manager]
        rfl
      · intro j hj origin
        rw [← hone.window hj, State.window, State.window, hone.manager]
        rfl
    have hentry := cacheChoice_entry st.manager key
    have hkeys₁ : State.DistinctKeys { st₀ with manager := st.manager.cacheChoice key } := by
      have hlist := congrArg (List.map st.keyOf) (cacheChoice_storages st.manager key)
      simp only [List.map_map] at hlist
      unfold State.DistinctKeys State.keyOf
      simp only [hone.settings]
      refine Eq.mpr (congrArg List.Nodup hlist) ?_
      exact hkeys
    obtain ⟨source₁, hsource₁, hsame⟩ := (hentry i).1 source hsource
    have hloop : Leaves (forM (List.range st.manager.stores.length)
        (passOne env st.manager source.storage settings)) _ _ _ :=
      leaves_passOne_forM hkeys₁ ⟨i, source₁, hsource₁, hsame⟩ (hsettings.trans (hone.settings _).symm)
        (fun j managed hj => by
          obtain ⟨managed₀, hj₀, hstorage⟩ := (hentry j).2 managed hj
          rw [hknown.cachedSettings_some havail hj₀, hone.settings, hstorage])
        List.nodup_range
    refine hloop.mono (fun _ st₂ hpassed => ?_) fun _ _ => trivial
    have hlength : (st.manager.cacheChoice key).stores.length = st.manager.stores.length :=
      List.length_map _
    rw [← hlength] at hpassed
    have hiff := hwritten.passedOn_iff hpassed
    rw [leaves_modify]
    refine leaves_doMakeAvailable.mono (fun _ st₄ hpart => ?_) fun _ _ => trivial
    refine ⟨hpart.known, hpart.isAvailable, (hpart.reported_iff ?_).trans hiff, fun htakes => ?_⟩
    · obtain ⟨j, managed, hj, hjkey⟩ := hkey
      obtain ⟨managed₁, hj₁, hstorage⟩ := (hentry j).1 managed hj
      refine ⟨j, managed₁, ?_, ?_⟩
      · rw [← hj₁, hpassed.manager]
      · rw [← hjkey, ← hstorage, State.keyOf, State.keyOf, hpassed.settings, hone.settings]
    · intro managed hmem
      obtain ⟨managed', hmem', heq⟩ := mem_storages hpart.storages.symm hmem
      rw [← heq, State.choice, hpart.identityKey, hpart.choice]
      exact hiff.mpr htakes managed' hmem'

/-! ## The call -/

/-- The active entry that `set_active` finds: an available manager has one, else it partitions. -/
def State.activeNow (st : State) : Option Nat :=
  if st.manager.isAvailable then st.manager.activeIndex else some (partition st.views).1

/-- The conflicting entries that `set_active` finds. -/
def State.conflictingNow (st : State) : List Nat :=
  if st.manager.isAvailable then st.manager.conflictingActiveIndices else (partition st.views).2.2

/-- What `set_active` takes an entry to say: an available manager goes by what it has cached. -/
def State.believes (st : State) (i : Nat) : Option View :=
  if st.manager.isAvailable then
    st.manager.stores[i]?.bind fun managed =>
      managed.cached.map fun r => ⟨r.1.storageIdentityKey, r.2.activeStorage⟩
  else st.views[i]?

/-- Whether `set_active` finds nothing to do. -/
def State.returnsEarly (st : State) (key : String) : Bool :=
  st.conflictingNow.isEmpty &&
    (st.activeNow.bind st.believes).any fun view => view.enabled && view.storageIdentityKey == key

/-- The provider that `set_active` writes the choice to. -/
def State.sourceOf (st : State) (key : String) : Option Nat :=
  if st.conflictingNow.isEmpty then
    st.activeNow.bind fun i => st.manager.stores[i]?.map (·.storage)
  else
    (st.manager.stores.find? fun managed => st.keyOf managed.storage == key).map (·.storage)

/-- The choice reaches every store: all hold it when nothing is done, and else every store but the
one it is written to takes it over. -/
def State.Settles (st : State) (now : Nat) (key : String) : Prop :=
  if st.returnsEarly key then
    ∀ managed ∈ st.manager.stores, (st.choice managed.storage).activeStorage = key
  else
    ∀ source ∈ st.sourceOf key, ∀ managed ∈ st.manager.stores, managed.storage ≠ source →
      st.TakesOver source key (toSeconds now) managed.storage

/-- Merging conflicts changes the new active store only, and nothing without conflicts. -/
theorem leaves_mergeConflicts_only {m : WalletStorageManager} {newActive newStorage : Nat}
    {newSettings : Settings} :
    Leaves (mergeConflicts env m newActive newStorage newSettings)
      (fun _ st' => OnlyStore st st' newStorage ∧ (m.conflictingActiveIndices.isEmpty = true → st' = st))
      (fun _ => True) st := by
  by_cases hempty : m.conflictingActiveIndices.isEmpty = true
  · unfold mergeConflicts conflictSources
    rw [if_pos hempty]
    exact ⟨⟨rfl, fun _ => rfl, fun _ _ => rfl⟩, fun _ => rfl⟩
  · have honly : Leaves (mergeConflicts env m newActive newStorage newSettings)
        (fun _ st' => OnlyStore st st' newStorage) (fun _ => True) st := by
      unfold mergeConflicts
      refine leaves_forM (fun i _ st₁ h₁ => ?_) ⟨rfl, fun _ => rfl, fun _ _ => rfl⟩
      rw [leaves_bind]
      refine leaves_storageOf (fun entry _ => ?_) trivial
      cases m.cachedSettings i with
      | none => exact h₁
      | some settings =>
        rw [leaves_bind]
        exact leaves_syncStores (fun _ s => h₁.trans (onlyStore_withStore st₁ newStorage s)) fun _ => trivial
    exact honly.mono (fun _ _ h => ⟨h, fun h' => absurd h' hempty⟩) fun _ h => h

theorem leaves_switchActive_reported (hknown : Known st) (havail : st.manager.isAvailable = true)
    (hkeys : st.DistinctKeys) {now newActive : Nat} {key : String} {newEntry : ManagedStorage}
    (hnew : st.manager.stores[newActive]? = some newEntry) (hkey : st.keyOf newEntry.storage = key) :
    Leaves (switchActive env now key newActive)
      (fun _ st' => ∃ source, st.sourceOf key = some source ∧ Known st' ∧
        st'.manager.isAvailable = true ∧
        ((st'.manager.getActiveStore = some key ∧ st'.manager.isActiveEnabled = true ∧
            st'.manager.getConflictingStores = [] ↔
          ∀ managed ∈ st.manager.stores, managed.storage ≠ source →
            st.TakesOver source key (toSeconds now) managed.storage) ∧
        ((∀ managed ∈ st.manager.stores, managed.storage ≠ source →
            st.TakesOver source key (toSeconds now) managed.storage) →
          ∀ managed ∈ st'.manager.stores, (st'.choice managed.storage).activeStorage = key)))
      (fun _ => True) st := by
  unfold switchActive
  rw [leaves_bind]
  refine leaves_storageOf (fun entry hentry => ?_) trivial
  obtain rfl : newEntry = entry := by
    rw [hnew, Option.some.injEq] at hentry
    exact hentry
  rw [leaves_bind]
  refine leaves_settingsOf (fun _ _ => ?_) trivial
  rw [leaves_bind, leaves_get, leaves_bind]
  refine leaves_mergeConflicts_only.mono ?_ fun _ _ => trivial
  rintro _ st₁ ⟨honly, hsame⟩
  rw [leaves_bind]
  -- the source of the choice, as an entry and as a provider
  have hsource : Leaves (backupSource st.manager newActive) (fun r st' => st' = st₁ ∧
      ∀ source, st.manager.stores[r.1]? = some source → st.sourceOf key = some source.storage ∧
        ∀ j, j ≠ source.storage → ∀ stamp,
          (st₁.TakesOver source.storage key stamp j ↔ st.TakesOver source.storage key stamp j))
      (fun _ => True) st₁ := by
    unfold backupSource
    by_cases hempty : st.manager.conflictingActiveIndices.isEmpty = true
    · rw [if_pos hempty, leaves_bind, hsame hempty]
      refine leaves_requireActive (fun i hi => ?_) trivial
      refine ⟨rfl, fun source hs => ⟨?_, fun _ _ _ => Iff.rfl⟩⟩
      simp only [State.sourceOf, State.conflictingNow, State.activeNow, havail, if_true, hempty, hi,
        Option.bind_some, hs, Option.map_some]
    · rw [if_neg hempty]
      refine ⟨rfl, fun source hs => ⟨?_, fun j hj stamp => ?_⟩⟩
      · rw [hnew, Option.some.injEq] at hs
        subst hs
        simp only [State.sourceOf, State.conflictingNow, havail, if_true, hempty, Bool.false_eq_true,
          if_false]
        cases hfind : st.manager.stores.find? fun managed => st.keyOf managed.storage == key with
        | none =>
          have := List.find?_eq_none.mp hfind newEntry (List.mem_of_getElem? hnew)
          simp [hkey] at this
        | some found =>
          obtain ⟨j, hj⟩ := List.mem_iff_getElem?.mp (List.mem_of_find?_eq_some hfind)
          have hfoundKey : st.keyOf found.storage = key := by
            simpa using List.find?_some hfind
          have hidx := hkeys.index hj hnew (hfoundKey.trans hkey.symm)
          rw [hidx, hnew, Option.some.injEq] at hj
          rw [hj, Option.map_some]
      · rw [hnew, Option.some.injEq] at hs
        subst hs
        simp only [State.TakesOver, honly.choice hj, honly.keyOf, honly.window hj]
  refine hsource.mono ?_ fun _ _ => trivial
  rintro ⟨i, role⟩ st₂ ⟨heq, hsrc⟩
  rw [heq]
  simp only at hsrc ⊢
  cases hi : st.manager.stores[i]? with
  | none =>
    -- without an entry for the source there is no success
    unfold writeChoice
    rw [leaves_bind]
    refine leaves_storageOf (fun entry hentry => ?_) trivial
    rw [honly.manager, hi] at hentry
    cases hentry
  | some source =>
    obtain ⟨hsourceOf, htakes⟩ := hsrc source hi
    have hkeys₁ : st₁.DistinctKeys := by
      unfold State.DistinctKeys
      rw [honly.manager]
      simp only [honly.keyOf]
      exact hkeys
    have hwrite : Leaves (writeChoice env now key st₁.manager i role) _ _ st₁ :=
      leaves_writeChoice_reported (honly.known hknown) (by rw [honly.manager]; exact havail) hkeys₁
        (by rw [honly.manager]; exact hi)
        ⟨newActive, newEntry, by rw [honly.manager]; exact hnew, by rw [honly.keyOf]; exact hkey⟩
    rw [honly.manager] at hwrite
    refine hwrite.mono ?_ fun _ h => h
    rintro _ st' ⟨hknown', havail', hiff, hall⟩
    have hsame : (∀ managed ∈ st.manager.stores, managed.storage ≠ source.storage →
        st₁.TakesOver source.storage key (toSeconds now) managed.storage) ↔
        ∀ managed ∈ st.manager.stores, managed.storage ≠ source.storage →
          st.TakesOver source.storage key (toSeconds now) managed.storage :=
      forall_congr' fun managed => forall_congr' fun _ => forall_congr' fun hne =>
        htakes managed.storage hne (toSeconds now)
    exact ⟨source.storage, hsourceOf, hknown', havail', hiff.trans hsame,
      fun h => hall (hsame.mpr h)⟩

/-- The entry that the call finds under a key. -/
theorem Known.findStore (h : Known st) (havail : st.manager.isAvailable = true) {key : String} {i : Nat}
    (hfind : st.manager.findStore key = some i) :
    ∃ managed, st.manager.stores[i]? = some managed ∧ st.keyOf managed.storage = key := by
  unfold WalletStorageManager.findStore at hfind
  have hlt := List.mem_range.mp (List.mem_of_find?_eq_some hfind)
  have hbeq := List.find?_some hfind
  have hi := List.getElem?_eq_getElem hlt
  refine ⟨_, hi, ?_⟩
  rw [h.cachedSettings_some havail hi, Option.map_some, Option.getD_some] at hbeq
  exact eq_of_beq hbeq

/-- The test with which the call finds nothing to do. -/
theorem returnsEarly_available (havail : st.manager.isAvailable = true) {key current : String}
    (hcurrent : st.manager.getActiveStore = some current) :
    st.returnsEarly key = (current == key && st.manager.isActiveEnabled) := by
  unfold WalletStorageManager.getActiveStore at hcurrent
  obtain ⟨i, hi, hcurrent⟩ := Option.bind_eq_some_iff.mp hcurrent
  obtain ⟨settings, hsettings, rfl⟩ := Option.map_eq_some_iff.mp hcurrent
  unfold WalletStorageManager.cachedSettings at hsettings
  obtain ⟨managed, hm, hsettings⟩ := Option.bind_eq_some_iff.mp hsettings
  obtain ⟨r, hr, rfl⟩ := Option.map_eq_some_iff.mp hsettings
  simp only [State.returnsEarly, State.conflictingNow, State.activeNow, State.believes, havail, if_true,
    hi, Option.bind_some, hm, hr, Option.map_some, Option.any_some, View.enabled,
    WalletStorageManager.isActiveEnabled, WalletStorageManager.cachedSettings,
    WalletStorageManager.cachedUser]
  rw [Bool.and_comm (_ == key), Bool.and_assoc]

theorem leaves_setActive_available (hknown : Known st) (havail : st.manager.isAvailable = true)
    (hkeys : st.DistinctKeys) {now : Nat} {key : String} :
    Leaves (setActive env now key) (fun _ st' => Reported st' key ↔ st.Settles now key) (fun _ => True)
      st := by
  unfold setActive makeAvailable
  simp only [leaves_bind, leaves_get, havail, if_true, leaves_pure]
  cases hfind : st.manager.findStore key with
  | none => trivial
  | some newActive =>
    simp only [leaves_bind]
    obtain ⟨newEntry, hnew, hkey⟩ := hknown.findStore havail hfind
    refine leaves_requireActive (fun _ _ => ?_) trivial
    cases hcurrent : st.manager.getActiveStore with
    | none => trivial
    | some current =>
      have hearly : st.returnsEarly key = _ := returnsEarly_available havail hcurrent
      by_cases hdone : (current == key && st.manager.isActiveEnabled) = true
      · simp only [hdone, if_true, leaves_pure]
        obtain ⟨hk, henabled⟩ := Bool.and_eq_true_iff.mp hdone
        unfold State.Settles
        rw [hearly, if_pos hdone]
        refine ⟨Reported.chosen, fun hall => ⟨?_, henabled, ?_, hall⟩⟩
        · rw [hcurrent, eq_of_beq hk]
        · have hnone : st.manager.conflictingActiveIndices = [] := by
            unfold WalletStorageManager.isActiveEnabled at henabled
            split at henabled
            · cases henabled
            · split at henabled
              · exact List.isEmpty_iff.mp (Bool.and_eq_true_iff.mp henabled).1
              · cases henabled
          rw [WalletStorageManager.getConflictingStores, hnone, List.filterMap_nil]
      · simp only [hdone, Bool.false_eq_true, if_false, leaves_bind]
        refine (leaves_switchActive_reported hknown havail hkeys hnew hkey).mono ?_ fun _ h => h
        rintro _ st₁ ⟨source, hsource, hknown₁, havail₁, hiff, hall⟩
        refine (leaves_updateBackups_chosen hknown₁ havail₁).mono ?_ fun _ h => h
        rintro _ st₂ ⟨hmanager, hchosen⟩
        unfold State.Settles
        rw [hearly, if_neg hdone]
        simp only [hsource, Option.mem_def, Option.some.injEq, forall_eq']
        constructor
        · intro h
          refine hiff.mp ?_
          rw [← hmanager]
          exact ⟨h.active, h.enabled, h.conflicting⟩
        · intro h
          obtain ⟨hactive, henabled, hconflicting⟩ := hiff.mpr h
          rw [← hmanager] at hactive henabled hconflicting
          refine ⟨hactive, henabled, hconflicting, ?_⟩
          rw [hmanager]
          exact hchosen key (hall h)

/-- A statement about the providers of the entries is the same before and after a partition. -/
theorem Partitioned.forall_storage {st' : State} (h : Partitioned st st') {P : Nat → Prop} :
    (∀ managed ∈ st'.manager.stores, P managed.storage) ↔ ∀ managed ∈ st.manager.stores, P managed.storage := by
  constructor
  · intro hall managed hmem
    obtain ⟨managed', hmem', heq⟩ := mem_storages h.storages hmem
    exact heq ▸ hall managed' hmem'
  · intro hall managed hmem
    obtain ⟨managed', hmem', heq⟩ := mem_storages h.storages.symm hmem
    exact heq ▸ hall managed' hmem'

/-- What the call goes by does not depend on whether the manager partitions before or within it. -/
theorem Partitioned.settles_iff {st' : State} (h : Partitioned st st')
    (hoff : st.manager.isAvailable = false) (now : Nat) (key : String) :
    st'.Settles now key ↔ st.Settles now key := by
  have hchoice : ∀ i, st'.choice i = st.choice i := by
    intro i
    rw [State.choice, h.identityKey, h.choice, State.choice]
  have hkeyOf : ∀ i, st'.keyOf i = st.keyOf i := by
    intro i
    rw [State.keyOf, h.settings, State.keyOf]
  have hwindow : ∀ i origin, st'.window i origin = st.window i origin := by
    intro i origin
    rw [State.window, h.identityKey, h.window, State.window]
  have hconflicting : st'.conflictingNow = st.conflictingNow := by
    simp only [State.conflictingNow, h.isAvailable, hoff, if_true, h.conflictingActiveIndices,
      Bool.false_eq_true, if_false]
  have hactive : st'.activeNow = st.activeNow := by
    simp only [State.activeNow, h.isAvailable, hoff, if_true, h.activeIndex, Bool.false_eq_true, if_false]
  have hbelieves : ∀ i, st'.believes i = st.believes i := by
    intro i
    simp only [State.believes, h.isAvailable, hoff, if_true, Bool.false_eq_true, if_false, State.views,
      List.getElem?_map]
    cases hm : st.manager.stores[i]? with
    | some managed =>
      obtain ⟨managed', r, hm', _, hr, hsettings, huser⟩ := h.entry hm
      rw [hm', Option.bind_some, hr, Option.map_some, Option.map_some, hsettings, huser]
      rfl
    | none =>
      have hlength := congrArg List.length h.storages
      rw [List.length_map, List.length_map] at hlength
      have hm' : st'.manager.stores[i]? = none := by
        rw [List.getElem?_eq_none_iff] at hm ⊢
        omega
      rw [hm', Option.bind_none, Option.map_none]
  have hearly : st'.returnsEarly key = st.returnsEarly key := by
    simp only [State.returnsEarly, hconflicting, hactive, hbelieves]
  have hsource : st'.sourceOf key = st.sourceOf key := by
    have hindex : ∀ i : Nat, st'.manager.stores[i]?.map (·.storage) =
        st.manager.stores[i]?.map (·.storage) := by
      intro i
      rw [← List.getElem?_map, ← List.getElem?_map, h.storages]
    have hfind : ∀ stores : List ManagedStorage,
        (stores.find? fun managed => st.keyOf managed.storage == key).map (·.storage) =
          (stores.map (·.storage)).find? fun i => st.keyOf i == key := by
      intro stores
      rw [List.find?_map]
      rfl
    simp only [State.sourceOf, hconflicting, hactive, hindex, hkeyOf, hfind, h.storages]
  unfold State.Settles State.TakesOver
  rw [hearly, hsource]
  simp only [hchoice, hkeyOf, hwindow]
  split
  · exact h.forall_storage (P := fun i => (st.choice i).activeStorage = key)
  · refine forall_congr' fun source => forall_congr' fun _ => ?_
    exact h.forall_storage (P := fun i => i ≠ source → st.TakesOver source key (toSeconds now) i)

/-- In every history of a manager, over stores with different keys and with any clock: a call of
`set_active` that returns Ok leaves what it reports exactly when the choice reaches every store. -/
theorem setActive_reported_iff {world : World} {identityKey : String} {active : Option Nat}
    {backups : List Nat}
    (hreach : (managed env world identityKey active backups).Reaches (fun _ _ => True) st)
    (hkeys : st.DistinctKeys) {now : Nat} {key : String}
    (hok : (outcome (setActive env now key) st).1.isOk = true) :
    Reported (outcome (setActive env now key) st).2 key ↔ st.Settles now key := by
  have hknown := known_of_reaches hreach
  have hleaves : Leaves (setActive env now key) (fun _ st' => Reported st' key ↔ st.Settles now key)
      (fun _ => True) st := by
    cases havail : st.manager.isAvailable with
    | true => exact leaves_setActive_available hknown havail hkeys
    | false =>
      -- the partition comes first; the rest is a call on an available manager
      have hrest : ∀ st₁, Partitioned st st₁ →
          Leaves (setActive env now key) (fun _ st' => Reported st' key ↔ st.Settles now key)
            (fun _ => True) st₁ := by
        intro st₁ hpart
        have hkeys₁ : st₁.DistinctKeys := by
          have hlist := congrArg (List.map st.keyOf) hpart.storages
          simp only [List.map_map] at hlist
          unfold State.DistinctKeys State.keyOf
          simp only [hpart.settings]
          refine Eq.mpr (congrArg List.Nodup hlist) ?_
          exact hkeys
        refine (leaves_setActive_available hpart.known hpart.isAvailable hkeys₁).mono ?_ fun _ h => h
        intro _ st₂ h₂
        exact h₂.trans (hpart.settles_iff havail now key)
      unfold setActive makeAvailable
      rw [leaves_bind, leaves_bind, leaves_get]
      simp only [havail, Bool.false_eq_true, if_false]
      refine leaves_doMakeAvailable.mono (fun _ st₁ hpart => ?_) fun _ _ => trivial
      have h₁ := hrest st₁ hpart
      unfold setActive makeAvailable at h₁
      rw [leaves_bind, leaves_bind, leaves_get] at h₁
      simp only [hpart.isAvailable, if_true] at h₁
      exact h₁
  exact hleaves.of_isOk hok

/-- A first switch between two fresh stores reaches both. -/
theorem setActive_reported_fresh :
    (Reported (outcome (setActive freshEnv 1700000000000 "second")
        ⟨freshWorld, .new "alice" (some 0) [1]⟩).2 "second" ↔
      State.Settles ⟨freshWorld, .new "alice" (some 0) [1]⟩ 1700000000000 "second") ∧
      State.Settles ⟨freshWorld, .new "alice" (some 0) [1]⟩ 1700000000000 "second" := by
  have hinit : (managed freshEnv freshWorld "alice" (some 0) [1]).Reaches (fun _ _ => True)
      ⟨freshWorld, .new "alice" (some 0) [1]⟩ := .init
  refine ⟨setActive_reported_iff hinit ?_ ?_, ?_⟩
  · unfold State.DistinctKeys
    decide +kernel
  · decide +kernel
  · unfold State.Settles State.TakesOver
    decide +kernel

/-- Two switches within one second: the second one returns Ok, but the first store's own row still
names the other store, so the store that is reported active is not enabled. -/
theorem switched_twice_in_a_second :
    (outcome (setActive freshEnv 1700000000500 "first") (freshHistory "second")).1.isOk = true ∧
      (outcome (setActive freshEnv 1700000000500 "first")
        (freshHistory "second")).2.manager.isActiveEnabled = false ∧
      ((outcome (setActive freshEnv 1700000000500 "first")
        (freshHistory "second")).2.choice 0).activeStorage = "second" := by
  decide +kernel

end WalletToolbox.Manager
