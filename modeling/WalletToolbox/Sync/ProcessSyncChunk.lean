import WalletToolbox.Sync.Entities

/-! # processSyncChunk

The writer merges the rows of a chunk into its own.
A row is looked up by its natural key; a hit is updated when the incoming row is strictly newer, a
miss is inserted.
Ids of the other store are translated through the sync map.
Nothing encloses the writes of a chunk: each commits on its own. -/

namespace WalletToolbox.Storage

open WalletToolbox.Lib

/-! ## The merger of each kind -/

/-- `remap_required_fk`. -/
def remapRequiredFk (m : EntitySyncMap) (foreignId : Nat) (dependentEntity fkField : String) :
    Except WalletError Nat :=
  match m.getLocalId foreignId with
  | some id => .ok id
  | none =>
    .error (.internal (s!"processSyncChunk: {dependentEntity}.{fkField} references unmapped " ++
      s!"foreign id {foreignId} (no local id in syncMap.{m.entityName}); refusing to fall back " ++
      "to the raw foreign id"))

/-- What the merger does with one row: how it finds the local one, how it updates it, and what it
inserts when there is none. Proofs are never updated. -/
structure Merge (α : Type) where
  isLocal : α → Bool
  update : Option (α → Stmt)
  insert : Stmt

/-- The merger of a kind, with the foreign keys of the row translated. -/
def mergeOf (userId : Nat) (m : SyncMap) : (e : Entity) → e.Row → Except WalletError (Merge e.Row)
  | .provenTx, (r : ProvenTx) =>
    .ok { isLocal := fun (l : ProvenTx) => l.txid == r.txid
          update := none
          insert := .insertProvenTx r }
  | .outputBasket, (r : OutputBasket) =>
    .ok { isLocal := fun (l : OutputBasket) => l.userId == userId && l.name == r.name
          update := some fun (l : OutputBasket) =>
            .updateOutputBasket l.basketId
              { numberOfDesiredUtxos := some r.numberOfDesiredUtxos
                minimumDesiredUtxoValue := some r.minimumDesiredUtxoValue
                isDeleted := some r.isDeleted, updatedAt := some (max r.updatedAt l.updatedAt) }
          insert := .insertOutputBasket { r with userId } }
  | .outputTag, (r : OutputTag) =>
    .ok { isLocal := fun (l : OutputTag) => l.userId == userId && l.tag == r.tag
          update := some fun (l : OutputTag) =>
            .updateOutputTag l.outputTagId
              { isDeleted := some r.isDeleted, updatedAt := some (max r.updatedAt l.updatedAt) }
          insert := .insertOutputTag { r with userId } }
  | .txLabel, (r : TxLabel) =>
    .ok { isLocal := fun (l : TxLabel) => l.userId == userId && l.label == r.label
          update := some fun (l : TxLabel) =>
            .updateTxLabel l.txLabelId
              { isDeleted := some r.isDeleted, updatedAt := some (max r.updatedAt l.updatedAt) }
          insert := .insertTxLabel { r with userId } }
  | .transaction, (r : Transaction) =>
    let provenTxId := r.provenTxId.bind m.provenTx.getLocalId
    .ok { isLocal := fun (l : Transaction) => l.userId == userId && l.reference == r.reference
          update := some fun (l : Transaction) =>
            .updateTransaction l.transactionId
              { provenTxId, status := some r.status, txid := r.txid, version := r.version
                lockTime := r.lockTime, isOutgoing := some r.isOutgoing, satoshis := some r.satoshis
                description := some r.description, rawTx := r.rawTx, inputBeef := r.inputBeef
                updatedAt := some (max r.updatedAt l.updatedAt) }
          insert := .insertTransaction { r with userId, provenTxId } }
  | .output, (r : Output) => do
    let transactionId ← remapRequiredFk m.transaction r.transactionId "output" "transaction_id"
    let basketId := r.basketId.bind m.outputBasket.getLocalId
    let spentBy := r.spentBy.bind m.transaction.getLocalId
    pure
      { isLocal := fun (l : Output) => l.transactionId == transactionId && l.vout == r.vout
        update := some fun (l : Output) =>
          .updateOutput l.outputId
            { spendable := some r.spendable, change := some r.change
              outputType := some r.outputType, providedBy := some r.providedBy
              purpose := some r.purpose, outputDescription := r.outputDescription
              spendingDescription := r.spendingDescription, senderIdentityKey := r.senderIdentityKey
              customInstructions := r.customInstructions, scriptLength := r.scriptLength
              scriptOffset := r.scriptOffset, lockingScript := r.lockingScript, spentBy
              updatedAt := some (max r.updatedAt l.updatedAt) }
        insert := .insertOutput { r with userId, transactionId, basketId, spentBy } }
  | .txLabelMap, (r : TxLabelMap) => do
    let txLabelId ← remapRequiredFk m.txLabel r.txLabelId "txLabelMap" "tx_label_id"
    let transactionId ← remapRequiredFk m.transaction r.transactionId "txLabelMap" "transaction_id"
    pure
      { isLocal := fun (l : TxLabelMap) =>
          l.txLabelId == txLabelId && l.transactionId == transactionId
        update := some fun (l : TxLabelMap) =>
          .updateTxLabelMap l.transactionId l.txLabelId
            { isDeleted := some r.isDeleted, updatedAt := some (max r.updatedAt l.updatedAt) }
        insert := .insertTxLabelMap { r with txLabelId, transactionId } }
  | .outputTagMap, (r : OutputTagMap) => do
    let outputTagId ← remapRequiredFk m.outputTag r.outputTagId "outputTagMap" "output_tag_id"
    let outputId ← remapRequiredFk m.output r.outputId "outputTagMap" "output_id"
    pure
      { isLocal := fun (l : OutputTagMap) => l.outputTagId == outputTagId && l.outputId == outputId
        update := some fun (l : OutputTagMap) =>
          .updateOutputTagMap l.outputId l.outputTagId
            { isDeleted := some r.isDeleted, updatedAt := some (max r.updatedAt l.updatedAt) }
        insert := .insertOutputTagMap { r with outputTagId, outputId } }
  | .certificate, (r : Certificate) =>
    .ok { isLocal := fun (l : Certificate) =>
            l.userId == userId && l.serialNumber == r.serialNumber && l.certifier == r.certifier
          update := some fun (l : Certificate) =>
            .updateCertificate l.certificateId
              { certType := some r.certType, subject := some r.subject
                serialNumber := some r.serialNumber, verifier := r.verifier
                revocationOutpoint := some r.revocationOutpoint, signature := some r.signature
                isDeleted := some r.isDeleted, updatedAt := some (max r.updatedAt l.updatedAt) }
          insert := .insertCertificate { r with userId } }
  | .certificateField, (r : CertificateField) => do
    let certificateId ←
      remapRequiredFk m.certificate r.certificateId "certificateField" "certificate_id"
    pure
      { isLocal := fun (l : CertificateField) =>
          l.certificateId == certificateId && l.fieldName == r.fieldName
        update := some fun (l : CertificateField) =>
          .updateCertificateField l.certificateId l.fieldName
            { fieldValue := some r.fieldValue, masterKey := some r.masterKey
              updatedAt := some (max r.updatedAt l.updatedAt) }
        insert := .insertCertificateField { r with userId, certificateId } }
  | .commission, (r : Commission) => do
    let transactionId ← remapRequiredFk m.transaction r.transactionId "commission" "transaction_id"
    pure
      { isLocal := fun (l : Commission) =>
          l.userId == userId && l.transactionId == transactionId && l.keyOffset == r.keyOffset
        update := some fun (l : Commission) =>
          .updateCommission l.commissionId
            { isRedeemed := some r.isRedeemed, updatedAt := some (max r.updatedAt l.updatedAt) }
        insert := .insertCommission { r with userId, transactionId } }
  | .provenTxReq, (r : ProvenTxReq) =>
    let provenTxId := r.provenTxId.bind m.provenTx.getLocalId
    .ok { isLocal := fun (l : ProvenTxReq) => l.txid == r.txid
          update := some fun (l : ProvenTxReq) =>
            .updateProvenTxReq l.provenTxReqId
              { provenTxId, status := some r.status, notified := some r.notified
                updatedAt := some (max r.updatedAt l.updatedAt) }
          insert := .insertProvenTxReq { r with provenTxId } }

/-! ## Merging a chunk -/

/-- The sync map and the numbers of rows written while a chunk is merged. -/
structure MergeState where
  map : SyncMap
  inserts : Nat := 0
  updates : Nat := 0

/-- `MergeEntity::should_update`: the incoming row is strictly newer. -/
def shouldUpdate (e : Entity) (existing incoming : e.Row) : Bool :=
  decide (e.updatedAt existing < e.updatedAt incoming)

/-- The map with a row counted and its time noted. -/
def SyncMap.received (m : SyncMap) (e : Entity) (r : e.Row) : SyncMap :=
  let esm := (m.get e).updateMax (e.updatedAt r)
  m.set e { esm with count := esm.count + 1 }

/-- Note the local id of a row, for the kinds that have one. -/
def SyncMap.link (m : SyncMap) (e : Entity) (r : e.Row) (localId : Nat) : Except WalletError SyncMap :=
  if e.hasId then do
    let esm ← (m.get e).mapId (key r) localId
    pure (m.set e esm)
  else .ok m

/-- Update the local row when the incoming one is newer; the answer counts the update. -/
def updateLocal (e : Entity) (merge : Merge e.Row) (existing r : e.Row) : StorageProg Nat :=
  match merge.update with
  | some update =>
    if shouldUpdate e existing r then do
      exec' (update existing)
      pure 1
    else pure 0
  | none => pure 0

/-- Merge a row whose foreign keys are translated. -/
def mergeWith (e : Entity) (st : MergeState) (map : SyncMap) (merge : Merge e.Row) (r : e.Row) :
    StorageProg MergeState := do
  match ← find fun s => (s.table e).first merge.isLocal with
  | some existing =>
    let updated ← updateLocal e merge existing r
    let map ← Prog.ofExcept (map.link e r (key existing))
    pure { st with map, updates := st.updates + updated }
  | none =>
    let id ← exec merge.insert
    let map ← Prog.ofExcept (map.link e r id)
    pure { st with map, inserts := st.inserts + 1 }

def mergeRow (userId : Nat) (e : Entity) (st : MergeState) (r : e.Row) : StorageProg MergeState := do
  let map := st.map.received e r
  let merge ← Prog.ofExcept (mergeOf userId map e r)
  mergeWith e st map merge r

/-- The order in which the arrays of a chunk are merged: labels come before tags. -/
def Entity.mergeOrder : List Entity :=
  [.provenTx, .outputBasket, .txLabel, .outputTag, .transaction, .output, .txLabelMap,
   .outputTagMap, .certificate, .certificateField, .commission, .provenTxReq]

def mergeEntity (userId : Nat) (chunk : SyncChunk) (st : MergeState) (e : Entity) :
    StorageProg MergeState :=
  ((chunk.rows e).getD []).foldlM (mergeRow userId e) st

/-- The user record of a chunk; the second component counts an update. -/
def mergeUser (chunk : SyncChunk) : StorageProg Nat := do
  match chunk.user with
  | none => pure 0
  | some user =>
    let (localUser, _) ← findOrInsertUser user.identityKey
    if localUser.updatedAt < user.updatedAt then
      exec' (.updateUser localUser.userId
        { activeStorage := some user.activeStorage
          updatedAt := some (max user.updatedAt localUser.updatedAt) })
      pure 1
    else pure 0

/-- `process_sync_chunk` of the sync module. -/
def mergeChunk (chunk : SyncChunk) (map : SyncMap) : StorageProg MergeState := do
  let updates ← mergeUser chunk
  match ← findUserByIdentityKey chunk.userIdentityKey with
  | none =>
    .fail (.internal s!"processSyncChunk: user not found for identity key {chunk.userIdentityKey}")
  | some user => Entity.mergeOrder.foldlM (mergeEntity user.userId chunk) { map, updates }

/-! ## The provider's call -/

/-- `ProcessSyncChunkResult`. -/
structure ProcessSyncChunkResult where
  done : Bool
  maxUpdatedAt : Option Nat
  updates : Nat
  inserts : Nat

/-- The later of a time and the time of a user record. -/
def withUser (maxUpdatedAt : Option Nat) (user : Option User) : Option Nat :=
  match user with
  | none => maxUpdatedAt
  | some user =>
    some (match maxUpdatedAt with
      | some m => max m user.updatedAt
      | none => user.updatedAt)

/-- The state that a writer keeps for a user and the store it reads from. -/
def findSyncState (userId : Nat) (storageIdentityKey : String) : StorageProg (Option SyncState) := do
  let states ← find fun s => s.syncStates.find fun ss =>
    ss.userId == userId && ss.storageIdentityKey == storageIdentityKey
  Prog.ofExcept (verifyOneOrNone states)

/-- `process_sync_chunk` of the provider. The round is over when all arrays are present and empty;
then the window moves on and the counts start again at zero. -/
def processSyncChunk (args : RequestSyncChunkArgs) (chunk : SyncChunk) :
    StorageProg ProcessSyncChunkResult :=
  if chunk.userIdentityKey != args.identityKey then
    .fail (.invalidParameter "syncChunk.userIdentityKey"
      (s!"the requested identityKey {args.identityKey} " ++
        s!"(chunk answered for {chunk.userIdentityKey})"))
  else do
    let (user, _) ← findOrInsertUser chunk.userIdentityKey
    let existing ← findSyncState user.userId args.fromStorageIdentityKey
    let map ← match existing with
      | some ss => Prog.ofExcept (ss.map "failed to parse persisted sync_map")
      | none => pure {}
    let merged ← mergeChunk chunk map
    let done := chunk.isEmpty
    let maxUpdatedAt := withUser merged.map.maxUpdatedAt chunk.user
    match existing with
    | some ss =>
      exec' (.updateSyncState ss.syncStateId
        { syncMap := some (if done then merged.map.resetCounts else merged.map)
          syncedAt := if done then maxUpdatedAt else none })
    | none => pure ()
    pure { done, maxUpdatedAt, updates := merged.updates, inserts := merged.inserts }

end WalletToolbox.Storage
