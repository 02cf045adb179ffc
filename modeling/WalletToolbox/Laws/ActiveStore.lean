import WalletToolbox.Laws.Manager

/-! # One active store

`active` is fixed when the manager is built, `get_active` follows the partition.
They name the same provider as long as every partition leaves the first store active; a switch to
another store, or a database that names itself, takes them apart. -/

namespace WalletToolbox.Manager

open WalletToolbox.Lib WalletToolbox.Lib.Calls WalletToolbox.Storage

variable {env : Env} {st : State}

/-- Where `attempt_to_post_reqs_to_network` rebuilds the source BEEFs of a request from. -/
def WalletStorageManager.sourceProvider (m : WalletStorageManager) : Option Nat :=
  m.active

/-- Where it reads the request and writes its new status. -/
def WalletStorageManager.requestProvider (m : WalletStorageManager) : Option Nat :=
  m.getActive

/-! ## The first store stays active -/

/-- The partition that a call makes, if it makes one, leaves the first store active: the first store
is the user's choice or no store is its own user's choice, and the store that is chosen is the
first one. -/
def Call.KeepsFirst (st : State) : Call → Prop
  | .makeAvailable | .updateBackups => st.manager.isAvailable = true ∨ FirstStays st.views
  | .setActive _ key =>
    (st.manager.isAvailable = true ∨ FirstStays st.views) ∧
      ∀ managed ∈ st.manager.stores.head?, key = (st.world managed.storage).settings.storageIdentityKey
  | .addWalletStorageProvider storage =>
    (st.manager.isAvailable = true ∨ FirstStays st.views) ∧
      FirstStays (st.views ++ [World.view st.world st.manager.identityKey storage])
  | .write _ _ => True

/-- The first entry is the provider that the manager was built with; it is the active one once the
manager is available. -/
structure FirstActive (st : State) : Prop extends Known st where
  first : ∃ first rest, st.manager.stores = first :: rest ∧
    st.manager.initialActive = some first.storage
  active : st.manager.isAvailable = true → st.manager.activeIndex = some 0

theorem FirstActive.same (h : FirstActive st) (havail : st.manager.isAvailable = true) :
    st.manager.sourceProvider = st.manager.requestProvider := by
  obtain ⟨first, rest, hstores, hinitial⟩ := h.first
  simp only [WalletStorageManager.sourceProvider, WalletStorageManager.requestProvider,
    WalletStorageManager.active, WalletStorageManager.getActive, h.active havail, hinitial, hstores,
    Option.bind_some, List.getElem?_cons_zero, Option.map_some]

/-- Changes in the databases do not matter. -/
theorem FirstActive.withStore (h : FirstActive st) (storage : Nat) (store : Store) :
    FirstActive (st.withStore storage store) :=
  ⟨h.toKnown.withStore storage store, h.first, h.active⟩

theorem FirstActive.sameViews {st' : State} (h : FirstActive st) (hsame : SameViews st st') :
    FirstActive st' := by
  refine ⟨h.toKnown.sameViews hsame, ?_, ?_⟩
  · rw [hsame.manager]
    exact h.first
  · rw [hsame.manager]
    exact h.active

theorem FirstActive.partitioned {st' : State} (h : FirstActive st) (hpart : Partitioned st st')
    (hfirst : FirstStays st.views) : FirstActive st' := by
  refine ⟨hpart.known, ?_, ?_⟩
  · obtain ⟨first, rest, hstores, hinitial⟩ := h.first
    have hstorages := hpart.storages
    rw [hstores, List.map_cons] at hstorages
    obtain ⟨first', rest', hstores', hfirst', _⟩ := List.map_eq_cons_iff.mp hstorages
    exact ⟨first', rest', hstores', by rw [hpart.initialActive, hinitial, hfirst']⟩
  · intro _
    rw [hpart.activeIndex, partition_first hfirst]

/-- Making the stores available keeps the views and, under the condition, the first store active. -/
theorem leaves_makeAvailable_first (h : FirstActive st)
    (hfirst : st.manager.isAvailable = true ∨ FirstStays st.views) :
    Leaves makeAvailable
      (fun _ st' => FirstActive st' ∧ st'.manager.isAvailable = true ∧ st'.views = st.views ∧
        st'.manager.identityKey = st.manager.identityKey ∧
        st'.manager.stores.map (·.storage) = st.manager.stores.map (·.storage) ∧
        (∀ i, (st'.world i).settings = (st.world i).settings) ∧
        ∀ i, World.view st'.world st.manager.identityKey i =
          World.view st.world st.manager.identityKey i)
      FirstActive st := by
  unfold makeAvailable
  rw [leaves_bind, leaves_get]
  by_cases havail : st.manager.isAvailable = true
  · rw [if_pos havail, leaves_pure]
    exact ⟨h, havail, rfl, rfl, rfl, fun _ => rfl, fun _ => rfl⟩
  · rw [if_neg havail]
    have hviews := hfirst.resolve_left havail
    refine leaves_doMakeAvailable.mono ?_ fun _ => h.sameViews
    intro _ st' hpart
    refine ⟨h.partitioned hpart hviews, hpart.isAvailable, ?_, hpart.identityKey, hpart.storages,
      hpart.settings, hpart.view⟩
    have hlist := congrArg (List.map (World.view st.world st.manager.identityKey)) hpart.storages
    simp only [List.map_map] at hlist
    unfold State.views
    rw [hpart.identityKey]
    simp only [hpart.view]
    exact hlist

/-- Bringing the backups up to date changes databases only. -/
theorem leaves_updateBackups_first (h : FirstActive st)
    (hfirst : st.manager.isAvailable = true ∨ FirstStays st.views) :
    Leaves (updateBackups env) (fun _ => FirstActive) FirstActive st := by
  unfold updateBackups
  rw [leaves_bind]
  refine (leaves_makeAvailable_first h hfirst).mono ?_ fun _ h => h
  rintro _ st₁ ⟨h₁, _⟩
  rw [leaves_bind]
  refine leaves_requireActive (fun active _ => ?_) h₁
  rw [leaves_bind]
  refine leaves_storageOf (fun activeEntry _ => ?_) h₁
  rw [leaves_bind]
  refine leaves_settingsOf (fun activeSettings _ => ?_) h₁
  rw [leaves_bind, leaves_get]
  refine leaves_forM (fun i _ st₂ h₂ => ?_) h₁
  rw [leaves_bind]
  refine leaves_storageOf (fun entry _ => ?_) h₂
  rw [leaves_bind]
  refine leaves_settingsOf (fun settings _ => ?_) h₂
  rw [leaves_bind]
  apply leaves_tryCatch
  apply leaves_syncStores
  · intro _ s
    exact h₂.withStore _ s
  · intro s _
    exact h₂.withStore _ s

/-! ## Switching to the first store -/

/-- The first store of the manager is this provider, which the user has chosen. -/
structure ChosenFirst (st : State) (storage : Nat) : Prop where
  active : FirstActive st
  head : (st.manager.stores.map (·.storage)).head? = some storage
  enabled : (World.view st.world st.manager.identityKey storage).enabled = true

theorem ChosenFirst.firstStays {storage : Nat} (h : ChosenFirst st storage) :
    FirstStays st.views := by
  obtain ⟨first, rest, hstores, _⟩ := h.active.first
  have hhead := h.head
  rw [hstores, List.map_cons, List.head?_cons, Option.some.injEq] at hhead
  unfold State.views
  rw [hstores, List.map_cons, hhead]
  exact .inl h.enabled

theorem ChosenFirst.withStore {storage other : Nat} (h : ChosenFirst st storage)
    (hne : other ≠ storage) (store : Store) : ChosenFirst (st.withStore other store) storage := by
  refine ⟨h.active.withStore other store, h.head, ?_⟩
  have hworld : (st.withStore other store).world storage = st.world storage :=
    State.withStore_of_ne store (Ne.symm hne)
  unfold World.view
  rw [hworld]
  exact h.enabled

/-- The entries after the cached users were overwritten. -/
theorem FirstActive.cacheChoice (h : FirstActive st) (key : String) :
    FirstActive { st with manager := st.manager.cacheChoice key } := by
  obtain ⟨first, rest, hstores, hinitial⟩ := h.first
  exact ⟨h.toKnown.cacheChoice key, ⟨_, _, congrArg (List.map _) hstores, hinitial⟩, h.active⟩

/-- Rows are passed on to other stores than the source. -/
theorem leaves_passOn_first {m : WalletStorageManager} {storage : Nat} (h : ChosenFirst st storage)
    (hm : ∀ i, m.cachedSettings i = st.manager.cachedSettings i) :
    Leaves (passOn env m storage (st.world storage).settings) (fun _ st' => ChosenFirst st' storage)
      FirstActive st := by
  -- besides, the loop leaves the manager and the names of the providers
  let I : State → Prop := fun st' => ChosenFirst st' storage ∧ st'.manager = st.manager ∧
    ∀ i, (st'.world i).settings = (st.world i).settings
  unfold passOn
  refine (leaves_forM (I := I) (fun i _ st₁ h₁ => ?_) ⟨h, rfl, fun _ => rfl⟩).mono
    (fun _ _ h => h.1) fun _ h => h
  obtain ⟨hchosen, hmanager, hsettings⟩ := h₁
  unfold passOne
  rw [leaves_bind]
  refine leaves_storageOf (fun entry hentry => ?_) hchosen.active
  cases hset : m.cachedSettings i with
  | none => exact ⟨hchosen, hmanager, hsettings⟩
  | some settings =>
    by_cases hown : (settings.storageIdentityKey == (st.world storage).settings.storageIdentityKey) = true
    · simp only [hown, if_true]
      exact ⟨hchosen, hmanager, hsettings⟩
    · simp only [hown, Bool.false_eq_true, if_false]
      rw [leaves_bind]
      have hne : entry.storage ≠ storage := by
        intro heq
        rw [hm, ← hmanager] at hset
        rw [hchosen.active.cachedSettings hset hentry, hsettings, heq] at hown
        simp at hown
      apply leaves_syncStores
      · intro _ s
        refine ⟨hchosen.withStore hne s, hmanager, fun j => ?_⟩
        rw [State.withStore_settings, hsettings]
      · intro s
        exact (hchosen.withStore hne s).active

/-- Writing the choice to the first store and passing it on leaves the first store active. -/
theorem leaves_writeChoice_first (h : FirstActive st) {now : Nat} {key role : String}
    {m : WalletStorageManager} (hm : m = st.manager)
    (hkey : ∀ managed ∈ st.manager.stores.head?,
      key = (st.world managed.storage).settings.storageIdentityKey) :
    Leaves (writeChoice env now key m 0 role)
      (fun _ st' => FirstActive st' ∧ st'.manager.isAvailable = true) FirstActive st := by
  subst hm
  obtain ⟨first, rest, hstores, hinitial⟩ := h.first
  have hkey := hkey first (by simp [hstores])
  unfold writeChoice
  rw [leaves_bind]
  refine leaves_storageOf (fun entry hentry => ?_) h
  have hfirst : entry = first := by
    rw [hstores, List.getElem?_cons_zero, Option.some.injEq] at hentry
    exact hentry.symm
  subst hfirst
  rw [leaves_bind]
  refine leaves_settingsOf (fun settings hsettings => ?_) h
  have hsettings := h.cachedSettings hsettings hentry
  cases st.manager.cachedUser 0 with
  | none => exact h
  | some user =>
    simp only [leaves_bind]
    unfold tickStore
    rw [leaves_modify, leaves_onStore]
    have hticked : FirstActive (st.withStore entry.storage ((st.world entry.storage).store.tick now)) :=
      h.withStore _ _
    refine wp_setActive (fun _ s hchoice _ => ?_) fun s _ => hticked.withStore _ s
    rw [leaves_modify]
    have hchosen : ChosenFirst
        ⟨((st.withStore entry.storage ((st.world entry.storage).store.tick now)).withStore
          entry.storage s).world, st.manager.cacheChoice key⟩ entry.storage := by
      refine ⟨(hticked.withStore entry.storage s).cacheChoice key, ?_, ?_⟩
      · show ((st.manager.cacheChoice key).stores.map (·.storage)).head? = _
        rw [cacheChoice_storages, hstores]
        rfl
      · show (World.view _ st.manager.identityKey entry.storage).enabled = true
        have hown := hchoice st.manager.identityKey
        rw [if_pos rfl] at hown
        simp only [View.enabled, World.view, State.withStore_self, hown]
        simpa using hkey.symm
    have hown : settings = ((((st.withStore entry.storage ((st.world entry.storage).store.tick now)).withStore
        entry.storage s).world entry.storage).settings) := by
      rw [State.withStore_settings, State.withStore_settings]
      exact hsettings
    rw [hown]
    refine (leaves_passOn_first hchosen fun i =>
      (cacheChoice_cachedSettings st.manager key i).symm).mono ?_ fun _ h => h
    intro _ st₁ h₁
    rw [leaves_modify]
    have hoff : FirstActive { st₁ with manager := { st₁.manager with isAvailable := false } } :=
      ⟨h₁.active.toKnown.unavailable, h₁.active.first, nofun⟩
    refine leaves_doMakeAvailable.mono ?_ fun _ => hoff.sameViews
    intro _ st₂ hpart
    exact ⟨hoff.partitioned hpart h₁.firstStays, hpart.isAvailable⟩

theorem leaves_switchActive_first (h : FirstActive st) (havail : st.manager.isAvailable = true)
    {now : Nat} {key : String}
    (hkey : ∀ managed ∈ st.manager.stores.head?,
      key = (st.world managed.storage).settings.storageIdentityKey) :
    Leaves (switchActive env now key 0)
      (fun _ st' => FirstActive st' ∧ st'.manager.isAvailable = true) FirstActive st := by
  let I : State → Prop := fun st' => FirstActive st' ∧ st'.manager = st.manager ∧
    ∀ i, (st'.world i).settings = (st.world i).settings
  unfold switchActive
  rw [leaves_bind]
  refine leaves_storageOf (fun newEntry _ => ?_) h
  rw [leaves_bind]
  refine leaves_settingsOf (fun newSettings _ => ?_) h
  rw [leaves_bind, leaves_get, leaves_bind]
  refine (leaves_mergeConflicts (I := I) ?_ ⟨h, rfl, fun _ => rfl⟩).mono ?_ fun _ h => h.1
  · rintro st₁ storage store ⟨h₁, hm₁, hset₁⟩
    refine ⟨h₁.withStore storage store, hm₁, fun i => ?_⟩
    rw [State.withStore_settings, hset₁]
  · rintro _ st₁ ⟨h₁, hm₁, hset₁⟩
    rw [leaves_bind]
    have hsource : Leaves (backupSource st.manager 0) (fun r st' => r.1 = 0 ∧ st' = st₁)
        FirstActive st₁ := by
      unfold backupSource
      by_cases hconf : st.manager.conflictingActiveIndices.isEmpty = true
      · rw [if_pos hconf, leaves_bind]
        refine leaves_requireActive (fun i hi => ?_) h₁
        rw [hm₁, h.active havail, Option.some.injEq] at hi
        exact ⟨hi.symm, rfl⟩
      · rw [if_neg hconf]
        exact ⟨rfl, rfl⟩
    refine hsource.mono ?_ fun _ h => h
    rintro ⟨source, role⟩ _ ⟨rfl, rfl⟩
    refine leaves_writeChoice_first h₁ hm₁.symm ?_
    intro managed hmanaged
    rw [hm₁] at hmanaged
    rw [hset₁]
    exact hkey managed hmanaged

/-- The first store is found under its own key. -/
theorem FirstActive.findStore (h : FirstActive st) (havail : st.manager.isAvailable = true)
    {key : String}
    (hkey : ∀ managed ∈ st.manager.stores.head?,
      key = (st.world managed.storage).settings.storageIdentityKey) :
    st.manager.findStore key = some 0 := by
  obtain ⟨first, rest, hstores, _⟩ := h.first
  have hmem : first ∈ st.manager.stores := by rw [hstores]; exact List.mem_cons_self
  obtain ⟨r, hr⟩ := Option.ne_none_iff_exists'.mp (h.known havail first hmem)
  have hsettings := h.cached first hmem r hr
  have hkey := hkey first (by rw [hstores]; rfl)
  have hcached : st.manager.cachedSettings 0 = some r.1 := by
    unfold WalletStorageManager.cachedSettings
    rw [hstores, List.getElem?_cons_zero, Option.bind_some, hr, Option.map_some]
  unfold WalletStorageManager.findStore
  rw [hstores, List.length_cons, List.range_succ_eq_map, List.find?_cons_of_pos]
  rw [hcached, hkey, hsettings]
  simp

theorem leaves_setActive_first (h : FirstActive st) {now : Nat} {key : String}
    (hkeeps : (Call.setActive now key).KeepsFirst st) :
    Leaves (setActive env now key) (fun _ => FirstActive) FirstActive st := by
  obtain ⟨hfirst, hkey⟩ := hkeeps
  unfold setActive
  rw [leaves_bind]
  refine (leaves_makeAvailable_first h hfirst).mono ?_ fun _ h => h
  rintro _ st₁ ⟨h₁, havail, _, _, hstorages, hsettings, _⟩
  have hkey₁ : ∀ managed ∈ st₁.manager.stores.head?,
      key = (st₁.world managed.storage).settings.storageIdentityKey := by
    intro managed hmanaged
    have hhead := congrArg List.head? hstorages
    rw [List.head?_map, List.head?_map, hmanaged, Option.map_some] at hhead
    obtain ⟨managed₀, hmanaged₀, hsame⟩ := Option.map_eq_some_iff.mp hhead.symm
    rw [hsettings, ← hsame]
    exact hkey managed₀ hmanaged₀
  rw [leaves_bind, leaves_get]
  simp only [h₁.findStore havail hkey₁, leaves_bind]
  refine leaves_requireActive (fun _ _ => ?_) h₁
  cases st₁.manager.getActiveStore with
  | none => exact h₁
  | some current =>
    by_cases hdone : (current == key && st₁.manager.isActiveEnabled) = true
    · simp only [hdone, if_true]
      exact h₁
    · simp only [hdone, Bool.false_eq_true, if_false, leaves_bind]
      refine (leaves_switchActive_first h₁ havail hkey₁).mono ?_ fun _ h => h
      rintro _ st₂ ⟨h₂, havail₂⟩
      exact leaves_updateBackups_first h₂ (.inl havail₂)

/-! ## Adding a provider -/

theorem leaves_addWalletStorageProvider_first (h : FirstActive st) {storage : Nat}
    (hkeeps : (Call.addWalletStorageProvider storage).KeepsFirst st) :
    Leaves (addWalletStorageProvider env storage) (fun _ => FirstActive) FirstActive st := by
  obtain ⟨hfirst, hadded⟩ := hkeeps
  unfold addWalletStorageProvider
  rw [leaves_bind]
  refine (leaves_makeAvailable_first h hfirst).mono ?_ fun _ h => h
  rintro _ st₁ ⟨h₁, _, hviews, hidentity, _, _, hview⟩
  rw [leaves_bind, leaves_modify, leaves_bind]
  generalize hst₂ : ({ st₁ with manager :=
    { st₁.manager with stores := st₁.manager.stores ++ [{ storage }], isAvailable := false } } :
      State) = st₂
  have h₂ : FirstActive st₂ := by
    subst hst₂
    obtain ⟨first, rest, hstores, hinitial⟩ := h₁.first
    refine ⟨h₁.toKnown.added storage, ⟨first, rest ++ [{ storage }], ?_, hinitial⟩, nofun⟩
    rw [← List.cons_append, ← hstores]
  have hviews₂ : FirstStays st₂.views := by
    subst hst₂
    have hlist : State.views ⟨st₁.world, { st₁.manager with
        stores := st₁.manager.stores ++ [{ storage }], isAvailable := false }⟩ =
        st.views ++ [World.view st.world st.manager.identityKey storage] := by
      rw [← hviews, ← hview]
      simp only [State.views, List.map_append, List.map_cons, List.map_nil, hidentity]
    rw [hlist]
    exact hadded
  refine leaves_doMakeAvailable.mono ?_ fun _ => h₂.sameViews
  intro _ st₃ hpart
  exact leaves_updateBackups_first (h₂.partitioned hpart hviews₂) (.inl hpart.isAvailable)

/-! ## Whole histories -/

/-- A call under the condition keeps the first store active. -/
theorem FirstActive.run (h : FirstActive st) {call : Call} (hkeeps : call.KeepsFirst st) :
    FirstActive (call.run env st) := by
  cases call with
  | makeAvailable =>
    exact leaves_state.mp ((leaves_makeAvailable_first h hkeeps).mono (fun _ _ h => h.1) fun _ h => h)
  | updateBackups => exact leaves_state.mp (leaves_updateBackups_first h hkeeps)
  | setActive now key => exact leaves_state.mp (leaves_setActive_first h hkeeps)
  | addWalletStorageProvider storage =>
    exact leaves_state.mp (leaves_addWalletStorageProvider_first h hkeeps)
  | write storage store => exact h.withStore storage store

theorem firstActive_new (world : World) (identityKey : String) (active : Nat) (backups : List Nat) :
    FirstActive ⟨world, .new identityKey (some active) backups⟩ := by
  exact ⟨known_new world identityKey (some active) backups, ⟨_, _, rfl, rfl⟩, nofun⟩

/-- In a history of a manager that was built with an active provider, in which every partition
leaves the first store active, the sources of a request come from the store that holds it. -/
theorem one_active_store (env : Env) (world : World) (identityKey : String) (active : Nat)
    (backups : List Nat)
    (h : (managed env world identityKey (some active) backups).Reaches Call.KeepsFirst st)
    (havail : st.manager.isAvailable = true) :
    st.manager.sourceProvider = st.manager.requestProvider := by
  have hactive : FirstActive st :=
    h.inv (I := FirstActive) (firstActive_new world identityKey active backups) fun _ _ h _ hkeeps =>
      h.run hkeeps
  exact hactive.same havail

/-! ## Two empty databases -/

/-- Providers with fresh databases. -/
def freshWorld : World := fun i =>
  { settings := { storageIdentityKey := if i = 0 then "first" else "second", storageName := "" }
    store := .empty }

def freshEnv : Env :=
  { size := fun _ _ => 0, refNum := fun _ _ => "" }

def freshHistory (key : String) : State :=
  (managed freshEnv freshWorld "alice" (some 0) [1]).after ⟨freshWorld, .new "alice" (some 0) [1]⟩
    [.makeAvailable, .setActive 1700000000000 key]

/-- After a switch to the first store the two accessors name it. -/
theorem one_active_store_first :
    (freshHistory "first").manager.sourceProvider = (freshHistory "first").manager.requestProvider := by
  refine one_active_store freshEnv freshWorld "alice" 0 [1] (.after .init ?_) ?_
  · refine ⟨⟨trivial, .inr (.inr ?_)⟩, ⟨trivial, .inl ?_, ?_⟩, trivial⟩
    · decide +kernel
    · decide +kernel
    · decide +kernel
  · decide +kernel

/-- After a switch to the second store `active` still names the first one. -/
theorem switched_active_store :
    (freshHistory "second").manager.isAvailable = true ∧
      (freshHistory "second").manager.sourceProvider = some 0 ∧
      (freshHistory "second").manager.requestProvider = some 1 := by
  decide +kernel

end WalletToolbox.Manager
