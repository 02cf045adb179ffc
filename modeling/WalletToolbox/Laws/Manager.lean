import WalletToolbox.Lib.Calls
import WalletToolbox.Lib.Runs
import WalletToolbox.Laws.SyncTurn

/-! # What the calls of the manager do

A call changes the databases only through the providers, and the manager's own state only where
it partitions the stores anew.
The partition depends on the views of the stores alone, and reading them changes none. -/

namespace WalletToolbox.Manager

open WalletToolbox.Lib WalletToolbox.Lib.Calls WalletToolbox.Storage

variable {env : Env} {st : State}

/-! ## Views -/

/-- What a provider says about a user. -/
def World.view (w : World) (identityKey : String) (storage : Nat) : View :=
  ⟨(w storage).settings.storageIdentityKey, ((w storage).store.choiceOf identityKey).activeStorage⟩

/-- What the stores of the manager say. -/
def State.views (st : State) : List View :=
  st.manager.stores.map fun managed => World.view st.world st.manager.identityKey managed.storage

theorem State.withStore_self (storage : Nat) (store : Store) :
    (st.withStore storage store).world storage = { st.world storage with store } := by
  simp [State.withStore]

theorem State.withStore_of_ne {storage other : Nat} (store : Store) (h : other ≠ storage) :
    (st.withStore storage store).world other = st.world other := by
  simp [State.withStore, h]

/-- No call changes the names of a provider. -/
theorem State.withStore_settings (storage other : Nat) (store : Store) :
    ((st.withStore storage store).world other).settings = (st.world other).settings := by
  by_cases h : other = storage
  · subst h
    rw [State.withStore_self]
  · rw [State.withStore_of_ne store h]

/-! ## Calls of a provider -/

theorem leaves_onStore {α : Type} {storage : Nat} {p : StorageProg α} {Q : α → State → Prop}
    {E : State → Prop} :
    Leaves (onStore storage p) Q E st ↔
      Prog.wp Stmt.exec p (fun a s => Q a (st.withStore storage s))
        (fun s => E (st.withStore storage s)) (st.world storage).store := by
  have houtcome : outcome (onStore storage p) st =
      ((p.run Stmt.exec (st.world storage).store).1,
        st.withStore storage (p.run Stmt.exec (st.world storage).store).2) := rfl
  unfold Leaves Prog.wp
  rw [houtcome]
  rcases p.run Stmt.exec (st.world storage).store with ⟨_ | a, s⟩ <;> exact Iff.rfl

/-- Whatever a provider does, the manager and the other databases stay. -/
theorem leaves_onStore_frame {α : Type} {storage : Nat} {p : StorageProg α} {Q : α → State → Prop}
    {E : State → Prop} (hQ : ∀ a s, Q a (st.withStore storage s))
    (hE : ∀ s, E (st.withStore storage s)) : Leaves (onStore storage p) Q E st := by
  rw [leaves_onStore]
  unfold Prog.wp
  rcases p.run Stmt.exec (st.world storage).store with ⟨_ | a, s⟩
  · exact hE s
  · exact hQ a s

theorem leaves_syncStores {writer reader : Nat} {writerSettings readerSettings : Settings}
    {Q : Nat × Nat → State → Prop} {E : State → Prop} (hQ : ∀ a s, Q a (st.withStore writer s))
    (hE : ∀ s, E (st.withStore writer s)) :
    Leaves (syncStores env writer reader writerSettings readerSettings) Q E st := by
  unfold syncStores
  rw [leaves_bind, leaves_get]
  exact leaves_onStore_frame hQ hE

/-! ## The partition -/

/-- The first store is chosen, or no other one is. -/
def FirstStays : List View → Prop
  | [] => True
  | first :: rest => first.enabled = true ∨ ∀ view ∈ rest, view.enabled = false

theorem foldl_partitionStep_first {views : List View}
    (h : ∀ i, 0 < i → i < views.length → (views.getD i ⟨"", ""⟩).enabled = true →
      (views.getD 0 ⟨"", ""⟩).enabled = true)
    {is : List Nat} (his : ∀ i ∈ is, 0 < i ∧ i < views.length) (others : List Nat) :
    (is.foldl (partitionStep views) (0, others)).1 = 0 := by
  induction is generalizing others with
  | nil => rfl
  | cons i is ih =>
    rw [List.foldl_cons]
    have hstep : partitionStep views (0, others) i = (0, others ++ [i]) := by
      unfold partitionStep
      rw [if_neg]
      intro hswap
      rw [Bool.and_eq_true, Bool.not_eq_true'] at hswap
      obtain ⟨hpos, hlt⟩ := his i List.mem_cons_self
      rw [h i hpos hlt hswap.1] at hswap
      cases hswap.2
    rw [hstep]
    exact ih (fun j hj => his j (List.mem_cons_of_mem _ hj)) _

/-- The stores that the first pass goes through. -/
theorem mem_drop_range {n i : Nat} (h : i ∈ (List.range n).drop 1) : 0 < i ∧ i < n := by
  cases n with
  | zero => simp at h
  | succ n =>
    rw [List.range_succ_eq_map] at h
    simp only [List.drop_succ_cons, List.drop_zero, List.mem_map, List.mem_range] at h
    obtain ⟨j, hj, rfl⟩ := h
    omega

theorem partition_first {views : List View} (h : FirstStays views) : (partition views).1 = 0 := by
  unfold partition
  refine foldl_partitionStep_first ?_ (fun i hi => mem_drop_range hi) _
  intro i hpos hlt henabled
  match views, h with
  | [], _ => simp at hlt
  | first :: rest, .inl hfirst => simpa using hfirst
  | first :: rest, .inr hrest =>
    obtain ⟨j, rfl⟩ := Nat.exists_eq_succ_of_ne_zero (Nat.ne_of_gt hpos)
    have hj : j < rest.length := by simpa using hlt
    have hmem : (first :: rest).getD (j + 1) ⟨"", ""⟩ ∈ rest := by
      simp [List.getD_eq_getElem?_getD, List.getElem?_eq_getElem hj]
    rw [Nat.succ_eq_add_one, hrest _ hmem] at henabled
    cases henabled

/-! ## Making the stores available -/

/-- Nothing but the content of databases changed, and there the user's choice and the windows of
the user's sync states are the same. -/
structure SameViews (st st' : State) : Prop where
  manager : st'.manager = st.manager
  settings : ∀ i, (st'.world i).settings = (st.world i).settings
  choice : ∀ i, (st'.world i).store.choiceOf st.manager.identityKey =
    (st.world i).store.choiceOf st.manager.identityKey
  window : ∀ i origin, (st'.world i).store.windowOf st.manager.identityKey origin =
    (st.world i).store.windowOf st.manager.identityKey origin

theorem SameViews.refl (st : State) : SameViews st st :=
  ⟨rfl, fun _ => rfl, fun _ => rfl, fun _ _ => rfl⟩

/-- What was read from an entry: the provider's settings and a user with its view. -/
def ReadBack (st : State) (managed : ManagedStorage) (r : Settings × User) : Prop :=
  r.1 = (st.world managed.storage).settings ∧
    r.2.activeStorage = (World.view st.world st.manager.identityKey managed.storage).activeStorage

theorem leaves_initStore {st₁ : State} {E : State → Prop} (h : SameViews st st₁)
    (managed : ManagedStorage) :
    Leaves (initStore managed.storage) (fun r st' => SameViews st st' ∧ ReadBack st managed r)
      E st₁ := by
  unfold initStore
  rw [leaves_bind, leaves_get, leaves_bind, leaves_onStore, h.manager]
  apply wp_findOrInsertUser_choice
  intro r s' u hu _ hread hchoice hsame hsync _ hfresh
  rw [leaves_pure]
  have hwindow : ∀ origin, s'.windowOf st.manager.identityKey origin =
      (st₁.world managed.storage).store.windowOf st.manager.identityKey origin := by
    intro origin
    unfold Tables.windowOf
    rw [syncStateOf_found hu (fun v hv => (hsame v hv).1) hsync hfresh]
  refine ⟨⟨h.manager, fun i => ?_, fun i => ?_, fun i origin => ?_⟩, h.settings _, ?_⟩
  · rw [State.withStore_settings, h.settings]
  · rw [← h.choice]
    by_cases hi : i = managed.storage
    · subst hi
      rw [State.withStore_self, hchoice]
    · rw [State.withStore_of_ne s' hi]
  · rw [← h.window]
    by_cases hi : i = managed.storage
    · subst hi
      rw [State.withStore_self, hwindow]
    · rw [State.withStore_of_ne s' hi]
  · rw [h.choice] at hread
    exact congrArg Choice.activeStorage hread

/-- The manager after a partition. -/
structure Partitioned (st st' : State) : Prop where
  settings : ∀ i, (st'.world i).settings = (st.world i).settings
  choice : ∀ i, (st'.world i).store.choiceOf st.manager.identityKey =
    (st.world i).store.choiceOf st.manager.identityKey
  window : ∀ i origin, (st'.world i).store.windowOf st.manager.identityKey origin =
    (st.world i).store.windowOf st.manager.identityKey origin
  identityKey : st'.manager.identityKey = st.manager.identityKey
  initialActive : st'.manager.initialActive = st.manager.initialActive
  storages : st'.manager.stores.map (·.storage) = st.manager.stores.map (·.storage)
  cached : ∀ managed ∈ st'.manager.stores, ∃ r, managed.cached = some r ∧ ReadBack st managed r
  nonempty : st.manager.stores ≠ []
  activeIndex : st'.manager.activeIndex = some (partition st.views).1
  backupIndices : st'.manager.backupIndices = (partition st.views).2.1
  conflictingActiveIndices : st'.manager.conflictingActiveIndices = (partition st.views).2.2
  isAvailable : st'.manager.isAvailable = true

theorem Partitioned.view {st' : State} (h : Partitioned st st') (i : Nat) :
    World.view st'.world st.manager.identityKey i = World.view st.world st.manager.identityKey i := by
  simp only [World.view, h.settings, h.choice]

theorem views_of_readBack {stores : List ManagedStorage} {results : List (Settings × User)}
    (h : List.Forall₂ (ReadBack st) stores results) :
    results.map (fun r => (⟨r.1.storageIdentityKey, r.2.activeStorage⟩ : View)) =
      stores.map fun managed => World.view st.world st.manager.identityKey managed.storage := by
  induction h with
  | nil => rfl
  | cons hread _ ih =>
    rw [List.map_cons, List.map_cons, ih, hread.1, hread.2]
    rfl

theorem zipWith_readBack {stores : List ManagedStorage} {results : List (Settings × User)}
    (h : List.Forall₂ (ReadBack st) stores results) :
    (stores.zipWith (fun managed r => { managed with cached := some r }) results).map (·.storage) =
        stores.map (·.storage) ∧
      ∀ managed ∈ stores.zipWith (fun managed r => { managed with cached := some r }) results,
        ∃ r, managed.cached = some r ∧ ReadBack st managed r := by
  induction h with
  | nil => simp
  | cons hread _ ih =>
    rw [List.zipWith_cons_cons, List.map_cons, List.map_cons, ih.1]
    refine ⟨rfl, ?_⟩
    intro managed hmem
    rcases List.mem_cons.mp hmem with rfl | hmem
    · exact ⟨_, rfl, hread⟩
    · exact ih.2 managed hmem

/-- With stores there is nothing that could fail. -/
theorem leaves_doMakeAvailable_nonempty {E : State → Prop} (h : st.manager.stores ≠ []) :
    Leaves doMakeAvailable (fun _ st' => Partitioned st st') E st := by
  unfold doMakeAvailable
  rw [leaves_bind, leaves_get, List.isEmpty_eq_false_iff.mpr h]
  simp only [Bool.false_eq_true, if_false, leaves_bind]
  refine (leaves_mapM (R := ReadBack st) (fun managed _ st₁ h₁ => leaves_initStore h₁ managed)
    (SameViews.refl st)).mono ?_ fun _ h => h
  rintro results st₁ ⟨h₁, hresults⟩
  rw [leaves_modify, views_of_readBack hresults]
  rw [← h₁.manager] at hresults
  obtain ⟨hstorages, hcached⟩ := zipWith_readBack hresults
  refine ⟨h₁.settings, h₁.choice, h₁.window, ?_, ?_, ?_, hcached, h, rfl, rfl, rfl, rfl⟩
  · rw [h₁.manager]
  · rw [h₁.manager]
  · rw [← h₁.manager]
    exact hstorages

theorem leaves_doMakeAvailable :
    Leaves doMakeAvailable (fun _ st' => Partitioned st st') (SameViews st) st := by
  by_cases hempty : st.manager.stores = []
  · unfold doMakeAvailable
    rw [leaves_bind, leaves_get, hempty]
    simp only [List.isEmpty_nil, if_true, leaves_bind, leaves_throw]
    exact SameViews.refl st
  · exact leaves_doMakeAvailable_nonempty hempty

/-! ## What the manager knows of its stores -/

/-- What is cached are the settings of the providers, and an available manager has read them all. -/
structure Known (st : State) : Prop where
  cached : ∀ managed ∈ st.manager.stores, ∀ r, managed.cached = some r →
    r.1 = (st.world managed.storage).settings
  known : st.manager.isAvailable = true → ∀ managed ∈ st.manager.stores, managed.cached ≠ none

theorem known_new (world : World) (identityKey : String) (active : Option Nat) (backups : List Nat) :
    Known ⟨world, .new identityKey active backups⟩ := by
  refine ⟨?_, nofun⟩
  intro managed hmem r hr
  obtain ⟨storage, _, rfl⟩ := List.mem_map.mp hmem
  cases hr

theorem Known.withStore (h : Known st) (storage : Nat) (store : Store) :
    Known (st.withStore storage store) :=
  { h with
    cached := fun managed hmem r hr => by
      rw [State.withStore_settings]
      exact h.cached managed hmem r hr }

theorem Known.sameViews {st' : State} (h : Known st) (hsame : SameViews st st') : Known st' := by
  constructor
  · intro managed hmem r hr
    rw [hsame.settings]
    rw [hsame.manager] at hmem
    exact h.cached managed hmem r hr
  · rw [hsame.manager]
    exact h.known

theorem Partitioned.known {st' : State} (h : Partitioned st st') : Known st' := by
  constructor
  · intro managed hmem r hr
    obtain ⟨r', hr', hread⟩ := h.cached managed hmem
    rw [hr] at hr'
    cases hr'
    rw [h.settings]
    exact hread.1
  · intro _ managed hmem hnone
    obtain ⟨r, hr, _⟩ := h.cached managed hmem
    rw [hnone] at hr
    cases hr

/-- The entries after the cached users were overwritten. -/
theorem Known.cacheChoice (h : Known st) (key : String) :
    Known { st with manager := st.manager.cacheChoice key } := by
  constructor
  · intro managed hmem r hr
    obtain ⟨managed₀, hmem₀, rfl⟩ := List.mem_map.mp hmem
    obtain ⟨r₀, hr₀, rfl⟩ := Option.map_eq_some_iff.mp hr
    exact h.cached managed₀ hmem₀ r₀ hr₀
  · intro havail managed hmem hnone
    obtain ⟨managed₀, hmem₀, rfl⟩ := List.mem_map.mp hmem
    exact h.known havail managed₀ hmem₀ (Option.map_eq_none_iff.mp hnone)

theorem Known.unavailable (h : Known st) :
    Known { st with manager := { st.manager with isAvailable := false } } :=
  ⟨h.cached, nofun⟩

theorem Known.added (h : Known st) (storage : Nat) :
    Known { st with manager := { st.manager with
      stores := st.manager.stores ++ [{ storage }], isAvailable := false } } := by
  refine ⟨?_, nofun⟩
  intro managed hmem r hr
  rcases List.mem_append.mp hmem with hmem | hmem
  · exact h.cached managed hmem r hr
  · rw [List.mem_singleton.mp hmem] at hr
    cases hr

theorem cacheChoice_storages (m : WalletStorageManager) (key : String) :
    (m.cacheChoice key).stores.map (·.storage) = m.stores.map (·.storage) := by
  simp only [WalletStorageManager.cacheChoice, List.map_map]
  rfl

theorem cacheChoice_cachedSettings (m : WalletStorageManager) (key : String) (i : Nat) :
    (m.cacheChoice key).cachedSettings i = m.cachedSettings i := by
  simp only [WalletStorageManager.cachedSettings, WalletStorageManager.cacheChoice, List.getElem?_map]
  cases m.stores[i]? with
  | none => rfl
  | some managed => cases h : managed.cached <;> simp [h]

theorem Known.cachedSettings (h : Known st) {i : Nat} {settings : Settings}
    (hs : st.manager.cachedSettings i = some settings) {managed : ManagedStorage}
    (hm : st.manager.stores[i]? = some managed) :
    settings = (st.world managed.storage).settings := by
  unfold WalletStorageManager.cachedSettings at hs
  rw [hm, Option.bind_some] at hs
  obtain ⟨r, hr, rfl⟩ := Option.map_eq_some_iff.mp hs
  exact h.cached managed (List.mem_of_getElem? hm) r hr

theorem leaves_requireActive {Q : Nat → State → Prop} {E : State → Prop}
    (hsome : ∀ i, st.manager.activeIndex = some i → Q i st) (hnone : E st) :
    Leaves requireActive Q E st := by
  unfold requireActive
  rw [leaves_bind, leaves_get]
  cases hactive : st.manager.activeIndex with
  | none => exact hnone
  | some i => exact hsome i hactive

theorem leaves_storageOf {i : Nat} {Q : Nat → State → Prop} {E : State → Prop}
    (hsome : ∀ managed, st.manager.stores[i]? = some managed → Q managed.storage st) (hnone : E st) :
    Leaves (storageOf i) Q E st := by
  unfold storageOf
  rw [leaves_bind, leaves_get]
  cases hstore : st.manager.stores[i]? with
  | none => exact hnone
  | some managed => exact hsome managed hstore

theorem leaves_settingsOf {i : Nat} {missing : String} {Q : Settings → State → Prop}
    {E : State → Prop} (hsome : ∀ settings, st.manager.cachedSettings i = some settings → Q settings st)
    (hnone : E st) : Leaves (settingsOf i missing) Q E st := by
  unfold settingsOf
  rw [leaves_bind, leaves_get]
  cases hsettings : st.manager.cachedSettings i with
  | none => exact hnone
  | some settings => exact hsome settings hsettings

/-- Merging conflicts changes databases only. -/
theorem leaves_mergeConflicts {m : WalletStorageManager} {newActive newStorage : Nat}
    {newSettings : Settings} {I : State → Prop}
    (hI : ∀ st storage store, I st → I (st.withStore storage store)) (h : I st) :
    Leaves (mergeConflicts env m newActive newStorage newSettings) (fun _ => I) I st := by
  unfold mergeConflicts
  refine leaves_forM (fun i _ st₁ h₁ => ?_) h
  rw [leaves_bind]
  refine leaves_storageOf (fun entry _ => ?_) h₁
  cases m.cachedSettings i with
  | none => exact h₁
  | some settings =>
    rw [leaves_bind]
    exact leaves_syncStores (fun _ s => hI st₁ _ s h₁) fun s => hI st₁ _ s h₁

/-! ## The manager as a system -/

/-- A call of the manager, or anything else that happens to a database. -/
inductive Call where
  | makeAvailable
  | updateBackups
  | setActive (now : Nat) (key : String)
  | addWalletStorageProvider (storage : Nat)
  | write (storage : Nat) (store : Store)

def Call.run (env : Env) (st : State) : Call → State
  | .makeAvailable => (outcome Manager.makeAvailable st).2
  | .updateBackups => (outcome (Manager.updateBackups env) st).2
  | .setActive now key => (outcome (Manager.setActive env now key) st).2
  | .addWalletStorageProvider storage => (outcome (Manager.addWalletStorageProvider env storage) st).2
  | .write storage store => st.withStore storage store

/-- A manager on some databases, from its construction on. -/
def managed (env : Env) (world : World) (identityKey : String) (active : Option Nat)
    (backups : List Nat) : System State Call where
  init := ⟨world, .new identityKey active backups⟩
  Enabled _ _ := True
  next call st := call.run env st

/-- An invariant that every change a call makes keeps. -/
structure Stable (I : State → Prop) : Prop where
  withStore : ∀ st storage store, I st → I (st.withStore storage store)
  sameViews : ∀ st st', I st → SameViews st st' → I st'
  partitioned : ∀ st st', I st → Partitioned st st' → I st'
  cacheChoice : ∀ st key, I st → I { st with manager := st.manager.cacheChoice key }
  unavailable : ∀ st, I st → I { st with manager := { st.manager with isAvailable := false } }
  added : ∀ st storage, I st → I { st with manager := { st.manager with
    stores := st.manager.stores ++ [{ storage }], isAvailable := false } }

theorem stable_known : Stable Known where
  withStore _ storage store h := h.withStore storage store
  sameViews _ _ h hsame := h.sameViews hsame
  partitioned _ _ _ hpart := hpart.known
  cacheChoice _ key h := h.cacheChoice key
  unavailable _ h := h.unavailable
  added _ storage h := h.added storage

namespace Stable

variable {I : State → Prop}

theorem leaves_doMakeAvailable (hI : Stable I) (h : I st) :
    Leaves doMakeAvailable (fun _ => I) I st :=
  Manager.leaves_doMakeAvailable.mono (fun _ st' => hI.partitioned st st' h)
    fun st' => hI.sameViews st st' h

theorem leaves_makeAvailable (hI : Stable I) (h : I st) :
    Leaves makeAvailable (fun _ => I) I st := by
  unfold makeAvailable
  rw [leaves_bind, leaves_get]
  by_cases havail : st.manager.isAvailable = true
  · rw [if_pos havail, leaves_pure]
    exact h
  · rw [if_neg havail]
    exact hI.leaves_doMakeAvailable h

theorem leaves_updateBackups (hI : Stable I) (h : I st) :
    Leaves (updateBackups env) (fun _ => I) I st := by
  unfold updateBackups
  rw [leaves_bind]
  refine (hI.leaves_makeAvailable h).mono (fun _ st₁ h₁ => ?_) fun _ h => h
  rw [leaves_bind]
  refine leaves_requireActive (fun _ _ => ?_) h₁
  rw [leaves_bind]
  refine leaves_storageOf (fun _ _ => ?_) h₁
  rw [leaves_bind]
  refine leaves_settingsOf (fun _ _ => ?_) h₁
  rw [leaves_bind, leaves_get]
  refine leaves_forM (fun i _ st₂ h₂ => ?_) h₁
  rw [leaves_bind]
  refine leaves_storageOf (fun entry _ => ?_) h₂
  rw [leaves_bind]
  refine leaves_settingsOf (fun _ _ => ?_) h₂
  rw [leaves_bind]
  apply leaves_tryCatch
  apply leaves_syncStores
  · intro _ s
    exact hI.withStore st₂ _ s h₂
  · intro s _
    exact hI.withStore st₂ _ s h₂

theorem leaves_passOn (hI : Stable I) (h : I st) {m : WalletStorageManager} {source : Nat}
    {settings : Settings} : Leaves (passOn env m source settings) (fun _ => I) I st := by
  unfold passOn
  refine leaves_forM (fun i _ st₁ h₁ => ?_) h
  unfold passOne
  rw [leaves_bind]
  refine leaves_storageOf (fun entry _ => ?_) h₁
  cases m.cachedSettings i with
  | none => exact h₁
  | some other =>
    by_cases hown : (other.storageIdentityKey == settings.storageIdentityKey) = true
    · simp only [hown, if_true]
      exact h₁
    · simp only [hown, Bool.false_eq_true, if_false]
      rw [leaves_bind]
      exact leaves_syncStores (fun _ s => hI.withStore st₁ _ s h₁) fun s => hI.withStore st₁ _ s h₁

theorem leaves_writeChoice (hI : Stable I) (h : I st) {now source : Nat} {key role : String}
    {m : WalletStorageManager} :
    Leaves (writeChoice env now key m source role) (fun _ => I) I st := by
  unfold writeChoice
  rw [leaves_bind]
  refine leaves_storageOf (fun entry _ => ?_) h
  rw [leaves_bind]
  refine leaves_settingsOf (fun settings _ => ?_) h
  cases m.cachedUser source with
  | none => exact h
  | some user =>
    simp only [leaves_bind]
    unfold tickStore
    rw [leaves_modify]
    have hticked := hI.withStore st entry.storage ((st.world entry.storage).store.tick now) h
    refine leaves_onStore_frame (fun _ s => ?_) fun s => hI.withStore _ _ s hticked
    rw [leaves_modify]
    have hcached := hI.cacheChoice _ key (hI.withStore _ entry.storage s hticked)
    refine (hI.leaves_passOn hcached).mono (fun _ st₁ h₁ => ?_) fun _ h => h
    rw [leaves_modify]
    exact hI.leaves_doMakeAvailable (hI.unavailable st₁ h₁)

theorem leaves_switchActive (hI : Stable I) (h : I st) {now newActive : Nat} {key : String} :
    Leaves (switchActive env now key newActive) (fun _ => I) I st := by
  unfold switchActive
  rw [leaves_bind]
  refine leaves_storageOf (fun _ _ => ?_) h
  rw [leaves_bind]
  refine leaves_settingsOf (fun _ _ => ?_) h
  rw [leaves_bind, leaves_get, leaves_bind]
  refine (leaves_mergeConflicts (fun st storage store h => hI.withStore st storage store h) h).mono
    (fun _ st₁ h₁ => ?_) fun _ h => h
  rw [leaves_bind]
  have hsource : Leaves (backupSource st.manager newActive) (fun _ => I) I st₁ := by
    unfold backupSource
    split
    · rw [leaves_bind]
      exact leaves_requireActive (fun _ _ => h₁) h₁
    · exact h₁
  exact hsource.mono (fun _ st₂ h₂ => hI.leaves_writeChoice h₂) fun _ h => h

theorem leaves_setActive (hI : Stable I) (h : I st) {now : Nat} {key : String} :
    Leaves (setActive env now key) (fun _ => I) I st := by
  unfold setActive
  rw [leaves_bind]
  refine (hI.leaves_makeAvailable h).mono (fun _ st₁ h₁ => ?_) fun _ h => h
  rw [leaves_bind, leaves_get]
  cases hfind : st₁.manager.findStore key with
  | none =>
    simp only [hfind]
    exact h₁
  | some newActive =>
    simp only [hfind, leaves_bind]
    refine leaves_requireActive (fun _ _ => ?_) h₁
    cases st₁.manager.getActiveStore with
    | none => exact h₁
    | some current =>
      by_cases hdone : (current == key && st₁.manager.isActiveEnabled) = true
      · simp only [hdone, if_true]
        exact h₁
      · simp only [hdone, Bool.false_eq_true, if_false, leaves_bind]
        exact (hI.leaves_switchActive h₁).mono (fun _ st₂ h₂ => hI.leaves_updateBackups h₂) fun _ h => h

/-- A call keeps what all its changes keep. -/
theorem run (hI : Stable I) (h : I st) (call : Call) : I (call.run env st) := by
  cases call with
  | makeAvailable => exact leaves_state.mp (hI.leaves_makeAvailable h)
  | updateBackups => exact leaves_state.mp (hI.leaves_updateBackups h)
  | setActive now key => exact leaves_state.mp (hI.leaves_setActive h)
  | addWalletStorageProvider storage =>
    refine leaves_state.mp ?_
    unfold addWalletStorageProvider
    rw [leaves_bind]
    refine (hI.leaves_makeAvailable h).mono (fun _ st₁ h₁ => ?_) fun _ h => h
    rw [leaves_bind, leaves_modify, leaves_bind]
    exact (hI.leaves_doMakeAvailable (hI.added st₁ storage h₁)).mono
      (fun _ st₂ h₂ => hI.leaves_updateBackups h₂) fun _ h => h
  | write storage store => exact hI.withStore st storage store h

end Stable

/-- A manager knows its stores whatever it was asked. -/
theorem known_of_reaches {world : World} {identityKey : String} {active : Option Nat}
    {backups : List Nat} {ok : State → Call → Prop}
    (h : (managed env world identityKey active backups).Reaches ok st) : Known st :=
  h.inv (I := Known) (known_new world identityKey active backups) fun _ call h _ _ =>
    stable_known.run h call

end WalletToolbox.Manager
