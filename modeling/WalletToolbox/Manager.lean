import WalletToolbox.Storage.WalletProvider
import WalletToolbox.System

/-! # The storage manager

A manager holds several providers, each with a database of its own, and decides which of them is
active.
The decision is a partition of the providers by what the user's row in each database says; it is
made again when a provider is added and when another one is chosen.
The rows reach the other databases through sync rounds. -/

namespace WalletToolbox.Manager

open WalletToolbox.Lib WalletToolbox.Storage

/-- A provider's own names. -/
structure Settings where
  storageIdentityKey : String
  storageName : String
deriving DecidableEq

/-- A provider: its settings and its database. -/
structure Provider where
  settings : Settings
  store : Store

/-- The providers that exist, by number. -/
abbrev World := Nat → Provider

/-- One entry of the manager: which provider it is, and what was read from it when it was last
made available. -/
structure ManagedStorage where
  storage : Nat
  cached : Option (Settings × User) := none

/-- `WalletStorageManager` with its `ManagerState`. -/
structure WalletStorageManager where
  identityKey : String
  initialActive : Option Nat
  stores : List ManagedStorage
  activeIndex : Option Nat := none
  backupIndices : List Nat := []
  conflictingActiveIndices : List Nat := []
  isAvailable : Bool := false

namespace WalletStorageManager

/-- `WalletStorageManager::new`. -/
def new (identityKey : String) (active : Option Nat) (backups : List Nat) : WalletStorageManager :=
  { identityKey, initialActive := active
    stores := (active.toList ++ backups).map fun storage => { storage } }

/-- `active`: the first provider that the constructor got. -/
def active (m : WalletStorageManager) : Option Nat :=
  m.initialActive

/-- `get_active`: the provider that the partition chose. -/
def getActive (m : WalletStorageManager) : Option Nat :=
  m.activeIndex.bind fun i => m.stores[i]?.map (·.storage)

def cachedSettings (m : WalletStorageManager) (i : Nat) : Option Settings :=
  m.stores[i]?.bind fun st => st.cached.map (·.1)

def cachedUser (m : WalletStorageManager) (i : Nat) : Option User :=
  m.stores[i]?.bind fun st => st.cached.map (·.2)

/-- `get_active_store`. -/
def getActiveStore (m : WalletStorageManager) : Option String :=
  m.activeIndex.bind fun i => (m.cachedSettings i).map (·.storageIdentityKey)

/-- `get_conflicting_stores`. -/
def getConflictingStores (m : WalletStorageManager) : List String :=
  m.conflictingActiveIndices.filterMap fun i => (m.cachedSettings i).map (·.storageIdentityKey)

/-- `is_active_enabled`. -/
def isActiveEnabled (m : WalletStorageManager) : Bool :=
  match m.activeIndex with
  | none => false
  | some i =>
    match m.cachedSettings i, m.cachedUser i with
    | some settings, some user =>
      m.conflictingActiveIndices.isEmpty && settings.storageIdentityKey == user.activeStorage
    | _, _ => false

end WalletStorageManager

/-- The databases and the manager. -/
structure State where
  world : World
  manager : WalletStorageManager

/-- The state with another content of one database. -/
def State.withStore (st : State) (storage : Nat) (store : Store) : State :=
  { st with world := Function.update st.world storage { st.world storage with store } }

/-- A call of the manager; what it did before an error stays. -/
abbrev ManagerM := ExceptT WalletError (StateM State)

/-- Make a call of a provider. -/
def onStore {α : Type} (storage : Nat) (p : StorageProg α) : ManagerM α := fun st =>
  let (result, store) := p.run Stmt.exec (st.world storage).store
  (result, st.withStore storage store)

/-! ## The partition -/

/-- What a provider says: its identity key and the user's choice of the active store. -/
structure View where
  storageIdentityKey : String
  activeStorage : String
deriving DecidableEq

def View.enabled (v : View) : Bool :=
  v.storageIdentityKey == v.activeStorage

/-- One store of the first pass: it takes over when it is chosen and the active one is not. -/
def partitionStep (views : List View) (acc : Nat × List Nat) (i : Nat) : Nat × List Nat :=
  let view := fun i => views.getD i ⟨"", ""⟩
  if (view i).enabled && !(view acc.1).enabled then (i, acc.2 ++ [acc.1])
  else (acc.1, acc.2 ++ [i])

/-- The active store, the backups and the conflicting actives. -/
def partition (views : List View) : Nat × List Nat × List Nat :=
  let (active, others) := ((List.range views.length).drop 1).foldl (partitionStep views) (0, [])
  let view := fun i => views.getD i ⟨"", ""⟩
  let agrees := fun i => (view i).activeStorage == (view active).storageIdentityKey
  (active, others.filter agrees, others.filter fun i => !agrees i)

/-- `make_available` and `find_or_insert_user` of one provider. -/
def initStore (storage : Nat) : ManagerM (Settings × User) := do
  let st ← get
  let (user, _) ← onStore storage (findOrInsertUser st.manager.identityKey)
  pure ((st.world storage).settings, user)

/-- `do_make_available`. -/
def doMakeAvailable : ManagerM Unit := do
  let st ← get
  if st.manager.stores.isEmpty then
    throw (.invalidParameter "stores" "non-empty — provide at least one storage provider")
  let results ← st.manager.stores.mapM fun managed => initStore managed.storage
  modify fun st =>
    let views := results.map fun r => ⟨r.1.storageIdentityKey, r.2.activeStorage⟩
    let (active, backups, conflicting) := partition views
    { st with manager :=
        { st.manager with
          stores := st.manager.stores.zipWith (fun managed r => { managed with cached := some r }) results
          activeIndex := some active, backupIndices := backups
          conflictingActiveIndices := conflicting, isAvailable := true } }

/-- `make_available`. -/
def makeAvailable : ManagerM Unit := do
  let st ← get
  if st.manager.isAvailable then pure () else doMakeAvailable

/-! ## Sync rounds -/

/-- The limits of one chunk. -/
structure Limits where
  maxRoughSize : Int
  maxItems : Int

/-- The limits of `make_request_sync_chunk_args`. -/
def Limits.default : Limits :=
  { maxRoughSize := 10000000, maxItems := 1000 }

/-- `make_request_sync_chunk_args`: the window and the offsets come from the sync state. -/
def makeRequestSyncChunkArgs (limits : Limits) (ss : SyncState)
    (identityKey writerStorageIdentityKey : String) : Except WalletError RequestSyncChunkArgs := do
  let map ← ss.map "make_request_sync_chunk_args: failed to parse sync_map JSON"
  pure
    { fromStorageIdentityKey := ss.storageIdentityKey
      toStorageIdentityKey := writerStorageIdentityKey
      identityKey, since := ss.syncedAt, maxRoughSize := limits.maxRoughSize
      maxItems := limits.maxItems
      offsets := Entity.all.map fun e => ((map.get e).entityName, ((map.get e).count : Int)) }

/-- Who takes part in a round: the two stores' names, the user, and what the environment supplies.
The reference number is that of a new sync state. -/
structure SyncPair where
  size : RowSize
  limits : Limits := Limits.default
  auth : AuthId
  writer : Settings
  reader : Settings
  refNum : String

/-- One turn of the sync loop, as calls of the writer; the reader answers from the given store. -/
def syncChunk (pair : SyncPair) (reader : Store) :
    StorageProg (RequestSyncChunkArgs × SyncChunk × ProcessSyncChunkResult) := do
  let (ss, _) ← findOrInsertSyncStateAuth pair.refNum pair.auth pair.reader.storageIdentityKey
    pair.reader.storageName
  let args ← Prog.ofExcept (makeRequestSyncChunkArgs pair.limits ss pair.auth.identityKey
    pair.writer.storageIdentityKey)
  let chunk ← Prog.ofExcept (getSyncChunk pair.size reader args)
  let r ← processSyncChunk args chunk
  pure (args, chunk, r)

/-- `MAX_NO_PROGRESS_CHUNKS`. -/
def maxNoProgressChunks : Nat := 2

/-- `SyncRequestKey`: what the answer to a request depends on. -/
abbrev SyncRequestKey := Option Nat × List (String × Int)

/-- What `sync_to_writer` carries from one turn to the next. -/
structure SyncProgress where
  inserts : Nat := 0
  updates : Nat := 0
  noProgress : Nat := 0
  previous : Option SyncRequestKey := none

/-- The error of a round in which two requests in a row repeated and changed nothing. -/
def stalled (pair : SyncPair) : WalletError :=
  .invalidOperation
    (s!"sync from '{pair.reader.storageIdentityKey}' stalled: {maxNoProgressChunks} " ++
      "consecutive chunks changed nothing and none reported done. The peer is most likely an " ++
      "older build whose producer omits empty entity arrays instead of sending them empty " ++
      "(pre-BRC-40 done-rule); upgrade it, or the sync state for this pair is inconsistent.")

/-- The loop of `sync_to_writer`, with as many turns as `fuel` says. -/
def syncLoop (pair : SyncPair) (reader : Store) : Nat → SyncProgress → StorageProg (Nat × Nat)
  | 0, _ => .fail (.internal "out of turns")
  | fuel + 1, p => do
    let (args, _, r) ← syncChunk pair reader
    let requestKey := (args.since, args.offsets)
    let p' : SyncProgress :=
      { inserts := p.inserts + r.inserts, updates := p.updates + r.updates
        noProgress :=
          if r.inserts == 0 && r.updates == 0 && p.previous == some requestKey then p.noProgress + 1
          else 0
        previous := some requestKey }
    if r.done then pure (p'.inserts, p'.updates)
    else if p'.noProgress ≥ maxNoProgressChunks then .fail (stalled pair)
    else syncLoop pair reader fuel p'

/-- The rows a store holds; a round delivers at least one of them with each chunk but the last. -/
def rowCount (d : Tables) : Nat :=
  (Entity.all.map fun e => (d.table e).rows.length).sum

/-- `sync_to_writer`, as calls of the writer. -/
def syncToWriter (pair : SyncPair) (reader : Store) : StorageProg (Nat × Nat) :=
  syncLoop pair reader (rowCount reader.toTables + 1) {}

/-- What the environment supplies to the manager: the size of rows, and the reference number of the
sync state that a writer opens for a reader. -/
structure Env where
  size : RowSize
  refNum : Nat → Nat → String

/-- `get_auth(false)`: the id that comes with the identity key is that of the active store's user. -/
def getAuth (m : WalletStorageManager) : AuthId :=
  { identityKey := m.identityKey
    userId := (m.activeIndex.bind m.cachedUser).map (·.userId) }

/-- `sync_to_writer` between two providers. -/
def syncStores (env : Env) (writer reader : Nat) (writerSettings readerSettings : Settings) :
    ManagerM (Nat × Nat) := do
  let st ← get
  onStore writer (syncToWriter
    { size := env.size, auth := getAuth st.manager, writer := writerSettings
      reader := readerSettings, refNum := env.refNum writer reader } (st.world reader).store)

/-- `require_active`. -/
def requireActive : ManagerM Nat := do
  match (← get).manager.activeIndex with
  | some i => pure i
  | none =>
    throw (.invalidOperation
      "WalletStorageManager not yet available — call make_available() first")

/-- The provider of an entry. -/
def storageOf (i : Nat) : ManagerM Nat := do
  match (← get).manager.stores[i]? with
  | some managed => pure managed.storage
  | none => throw (.internal "index out of bounds")

/-- The settings of an entry, or the error that the caller raises without them. -/
def settingsOf (i : Nat) (missing : String) : ManagerM Settings := do
  match (← get).manager.cachedSettings i with
  | some settings => pure settings
  | none => throw (.invalidOperation missing)

/-- The text of an error. -/
def displayOf : WalletError → String
  | .internal message | .sqlx message => "WERR_INTERNAL: " ++ message
  | .invalidParameter parameter mustBe =>
    s!"WERR_INVALID_PARAMETER: The {parameter} parameter must be {mustBe}"
  | .invalidOperation message => "WERR_INVALID_OPERATION: " ++ message
  | .unauthorized message => "WERR_UNAUTHORIZED: " ++ message
  | .insufficientFunds message _ _ => "WERR_INSUFFICIENT_FUNDS: " ++ message
  | .invalidMerkleRoot message _ _ _ _ => "WERR_INVALID_MERKLE_ROOT: " ++ message

/-- The error of a backup that could not be brought up to date. -/
def backupFailed (settings : Settings) (e : WalletError) : WalletError :=
  .invalidOperation
    (s!"update_backups: sync to backup '{settings.storageIdentityKey}' failed: {displayOf e}. The " ++
      "active store is unchanged; this backup is stale and must not be relied on for recovery.")

/-- `update_backups`. -/
def updateBackups (env : Env) : ManagerM Unit := do
  makeAvailable
  let active ← requireActive
  let activeStorage ← storageOf active
  let activeSettings ← settingsOf active "Active settings not cached"
  forM (← get).manager.backupIndices fun i => do
    let storage ← storageOf i
    let settings ← settingsOf i
      ("update_backups: a configured backup has no cached settings, so it cannot be synced or " ++
        "named. Refusing to report success for a replica that was skipped.")
    let _ ← tryCatch (syncStores env storage activeStorage settings activeSettings) fun e =>
      throw (backupFailed settings e)

/-! ## Choosing the active store -/

/-- The stores whose rows are merged into the new active one when there are conflicts. -/
def conflictSources (m : WalletStorageManager) (newActive : Nat) : List Nat :=
  if m.conflictingActiveIndices.isEmpty then []
  else (m.conflictingActiveIndices ++ m.activeIndex.toList).filter (· != newActive)

/-- Overwrite the choice in every cached user. -/
def WalletStorageManager.cacheChoice (m : WalletStorageManager) (key : String) :
    WalletStorageManager :=
  { m with stores := m.stores.map fun managed =>
      { managed with cached := managed.cached.map fun c => (c.1, { c.2 with activeStorage := key }) } }

/-- The index of the store with an identity key. -/
def WalletStorageManager.findStore (m : WalletStorageManager) (key : String) : Option Nat :=
  (List.range m.stores.length).find? fun i =>
    ((m.cachedSettings i).map (·.storageIdentityKey)).getD "" == key

/-- Set the clock of a provider. -/
def tickStore (storage now : Nat) : ManagerM Unit :=
  modify fun st => st.withStore storage ((st.world storage).store.tick now)

/-- Step 4: merge the conflicting stores into the new active one. A store without cached settings is
skipped. -/
def mergeConflicts (env : Env) (m : WalletStorageManager) (newActive newStorage : Nat)
    (newSettings : Settings) : ManagerM Unit :=
  forM (conflictSources m newActive) fun i => do
    let storage ← storageOf i
    match m.cachedSettings i with
    | some settings => do
      let _ ← syncStores env newStorage storage newSettings settings
    | none => pure ()

/-- Step 5: the store that the choice is written to, and what it is called in errors. -/
def backupSource (m : WalletStorageManager) (newActive : Nat) : ManagerM (Nat × String) :=
  if m.conflictingActiveIndices.isEmpty then do
    let active ← requireActive
    pure (active, "current")
  else pure (newActive, "new")

/-- Step 7 for one store: a round from the source, unless it is the source. -/
def passOne (env : Env) (m : WalletStorageManager) (sourceStorage : Nat) (sourceSettings : Settings)
    (i : Nat) : ManagerM Unit := do
  let storage ← storageOf i
  match m.cachedSettings i with
  | some settings =>
    if settings.storageIdentityKey == sourceSettings.storageIdentityKey then pure ()
    else do
      let _ ← syncStores env storage sourceStorage settings sourceSettings
  | none => pure ()

/-- Step 7: pass the rows of the source on to every other store. -/
def passOn (env : Env) (m : WalletStorageManager) (sourceStorage : Nat) (sourceSettings : Settings) :
    ManagerM Unit :=
  forM (List.range m.stores.length) (passOne env m sourceStorage sourceSettings)

/-- Steps 6 to 8: write the choice to the source, pass it on and partition again. -/
def writeChoice (env : Env) (now : Nat) (key : String) (m : WalletStorageManager) (source : Nat)
    (role : String) : ManagerM Unit := do
  let sourceStorage ← storageOf source
  let sourceSettings ← settingsOf source s!"set_active: {role} active settings not cached"
  match m.cachedUser source with
  | none => throw (.invalidOperation s!"set_active: {role} active user not cached")
  | some user =>
    tickStore sourceStorage now
    let _ ← onStore sourceStorage
      (Storage.setActive { identityKey := m.identityKey, userId := some user.userId } key)
    modify fun st => { st with manager := st.manager.cacheChoice key }
    passOn env m sourceStorage sourceSettings
    modify fun st => { st with manager := { st.manager with isAvailable := false } }
    doMakeAvailable

/-- Steps 4 to 8 of `set_active`. -/
def switchActive (env : Env) (now : Nat) (key : String) (newActive : Nat) : ManagerM Unit := do
  let newStorage ← storageOf newActive
  let newSettings ← settingsOf newActive "set_active: new active settings not cached"
  let m := (← get).manager
  mergeConflicts env m newActive newStorage newSettings
  let source ← backupSource m newActive
  writeChoice env now key m source.1 source.2

/-- `set_active`; `now` is the clock when the choice is written. -/
def setActive (env : Env) (now : Nat) (key : String) : ManagerM Unit := do
  makeAvailable
  let m := (← get).manager
  match m.findStore key with
  | none =>
    throw (.invalidParameter "storage_identity_key"
      s!"registered with this WalletStorageManager. {key} does not match any managed store.")
  | some newActive =>
    let _ ← requireActive
    match m.getActiveStore with
    | none => throw (.invalidOperation "Active settings not cached")
    | some current =>
      if current == key && m.isActiveEnabled then pure ()
      else do
        switchActive env now key newActive
        updateBackups env

/-- `add_wallet_storage_provider`. -/
def addWalletStorageProvider (env : Env) (storage : Nat) : ManagerM Unit := do
  makeAvailable
  modify fun st => { st with manager :=
    { st.manager with stores := st.manager.stores ++ [{ storage }], isAvailable := false } }
  doMakeAvailable
  updateBackups env

end WalletToolbox.Manager
