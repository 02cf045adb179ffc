import WalletToolbox.Storage.Provider

/-! # processAction

Commits a signed transaction to storage: the request to broadcast it, the transaction row and
the outputs, and the scheduling of a `sendWith` batch.
The transaction row is read before the database transaction begins. -/

namespace WalletToolbox.Storage

open WalletToolbox.Lib

structure StorageProcessActionArgs where
  isNewTx : Bool
  isSendWith : Bool
  isNoSend : Bool
  isDelayed : Bool
  reference : Option String
  txid : Option String
  rawTx : Option Bytes
  sendWith : List String

inductive ActionResultStatus where
  | unproven | sending | failed
deriving DecidableEq

structure SendWithResult where
  txid : String
  status : ActionResultStatus
deriving DecidableEq

structure StorageProcessActionResult where
  sendWithResults : Option (List SendWithResult) := none

/-- The statuses of the request and of the transaction. -/
structure ReqTxStatus where
  req : ProvenTxReqStatus
  tx : TransactionStatus

/-- The status state machine of processAction. -/
def reqTxStatus (args : StorageProcessActionArgs) : Except WalletError ReqTxStatus :=
  if args.isNoSend && !args.isSendWith then
    .ok { req := .nosend, tx := .nosend }
  else if !args.isNoSend && args.isDelayed then
    .ok { req := .unsent, tx := .unprocessed }
  else if !args.isNoSend && !args.isDelayed then
    .ok { req := .unprocessed, tx := .unprocessed }
  else
    .error (.internal "logic error in status determination")

/-- A request that a `sendWith` batch can still broadcast. -/
def ProvenTxReq.ready (req : ProvenTxReq) : Bool :=
  (req.status == .sending || req.status == .unsent || req.status == .nosend ||
    req.status == .unprocessed) && !req.rawTx.isEmpty

/-- A request that was broadcast before. -/
def ProvenTxReqStatus.alreadySent (status : ProvenTxReqStatus) : Bool :=
  status == .unmined || status == .callback || status == .unconfirmed || status == .completed

/-- One txid of a `sendWith` batch. -/
def scheduleOne (userId : Nat) (batch : Option String) (txid : String) :
    StorageProg SendWithResult := do
  match ← find fun s => s.provenTxReqs.first (·.txid == txid) with
  | none => pure { txid, status := .failed }
  | some req =>
    if req.ready then
      exec' (.updateProvenTxReq req.provenTxReqId { status := some .unsent, batch })
      let transactions ← find fun s => s.transactions.find fun t =>
        t.userId == userId && t.txid == some txid
      forM transactions fun t =>
        exec' (.updateTransaction t.transactionId { status := some .sending })
      pure { txid, status := .sending }
    else if req.status.alreadySent then
      pure { txid, status := .unproven }
    else
      pure { txid, status := .failed }

/-- `schedule_send_with`: classify and durably schedule a `sendWith` batch. `random` is the text
of the random batch id. -/
def scheduleSendWith (userId : Nat) (random : String) (txids : List String) :
    StorageProg (List SendWithResult) :=
  if txids.isEmpty then
    pure []
  else
    let batch := if txids.length > 1 then some random else none
    Prog.atomically (txids.foldlM (fun results txid => do
      let result ← scheduleOne userId batch txid
      pure (results ++ [result])) [])

/-- The database transaction of processAction for the transaction row read before it. -/
def commitSigned (userId : Nat) (transaction : Transaction) (txid : String) (rawTx : Bytes)
    (status : ReqTxStatus) : StorageProg Unit := do
  let now ← utcNow
  exec' (.insertProvenTxReq
    { createdAt := now, updatedAt := now, provenTxId := none, status := status.req
      attempts := 0, notified := false, txid, batch := none, history := some (.arr [])
      notify := some (.obj [("transactionIds", .arr [.num transaction.transactionId])])
      rawTx, inputBeef := transaction.inputBeef })
  exec' (.updateTransaction transaction.transactionId
    { txid := some txid, status := some status.tx, rawTx := some rawTx })
  let outputs ← find fun s => s.outputs.find fun o =>
    o.userId == userId && o.transactionId == transaction.transactionId
  forM outputs fun o => exec' (.updateOutput o.outputId { txid := some txid, spendable := some true })

/-- A required argument of a new transaction. -/
def required {α : Type} (value : Option α) (name : String) : StorageProg α :=
  match value with
  | some a => pure a
  | none => .fail (.invalidOperation s!"{name} is required")

/-- The checks on the transaction row that processAction reads. -/
def checkProcessable (transaction : Transaction) : Except WalletError Unit :=
  if !transaction.isOutgoing then
    .error (.invalidOperation "isOutgoing is not true")
  else if transaction.status != .unsigned && transaction.status != .unprocessed then
    .error (.invalidOperation s!"invalid transaction status {transaction.status.toString}")
  else
    .ok ()

/-- The batch of `storage_process_action` after its commit: nothing without a `sendWith` list, and
the new transaction is part of the batch unless it is not to be sent. -/
def sendBatch (userId : Nat) (args : StorageProcessActionArgs) (random txid : String) :
    StorageProg StorageProcessActionResult := do
  let txidsToSchedule :=
    if args.isNoSend && !args.isSendWith then args.sendWith else args.sendWith ++ [txid]
  if args.sendWith.isEmpty then
    pure {}
  else
    let results ← scheduleSendWith userId random txidsToSchedule
    pure { sendWithResults := some results }

/-- The rest of `storage_process_action` once it has read the rows of the reference. -/
def processRows (userId : Nat) (args : StorageProcessActionArgs) (random txid : String)
    (rawTx : Bytes) (rows : List Transaction) : StorageProg StorageProcessActionResult := do
  let transaction ← Prog.ofExcept (verifyOne rows)
  Prog.ofExcept (checkProcessable transaction)
  let status ← Prog.ofExcept (reqTxStatus args)
  Prog.atomically (commitSigned userId transaction txid rawTx status)
  sendBatch userId args random txid

/-- `storage_process_action`. -/
def storageProcessAction (userId : Nat) (args : StorageProcessActionArgs) (random : String) :
    StorageProg StorageProcessActionResult := do
  if !args.isNewTx then
    let results ← scheduleSendWith userId random args.sendWith
    pure { sendWithResults := some results }
  else
    let reference ← required args.reference "reference"
    let txid ← required args.txid "txid"
    let rawTx ← required args.rawTx "rawTx"
    let rows ← find fun s => s.transactions.find fun t =>
      t.userId == userId && t.reference == reference
    processRows userId args random txid rawTx rows

/-- `process_action`: the caller's user row is created on first use. -/
def processAction (auth : String) (args : StorageProcessActionArgs) (random : String) :
    StorageProg StorageProcessActionResult := do
  let (user, _) ← findOrInsertUser auth
  storageProcessAction user.userId args random

end WalletToolbox.Storage
