import WalletToolbox.Storage.Store

/-! # Composite storage calls

The calls of the storage provider that combine reads and statements.
A call that the toolbox makes inside a caller's transaction is part of the caller's block;
outside one, each of its statements commits on its own. -/

namespace WalletToolbox.Storage

open WalletToolbox.Lib

/-- A read of the store. -/
abbrev find {α : Type} (f : Store → α) : StorageProg α :=
  Prog.ask f

/-- Issue a statement for its answer. -/
abbrev exec (w : Stmt) : StorageProg Nat :=
  Prog.exec w

/-- Issue a statement whose answer is not used. -/
def exec' (w : Stmt) : StorageProg Unit := do
  let _ ← exec w
  pure ()

/-- Make a call and ignore its failure. -/
def ignore {α : Type} (p : StorageProg α) : StorageProg Unit := do
  let _ ← p.attempt
  pure ()

/-- The time the process reads off its clock. -/
def utcNow : StorageProg Nat :=
  find fun s => s.now

def findUserByIdentityKey (identityKey : String) : StorageProg (Option User) := do
  let users ← find fun s => s.users.find (·.identityKey == identityKey)
  Prog.ofExcept (verifyOneOrNone users)

/-- `find_or_insert_user`: a new user is stamped as not synced yet. The second component tells
whether the user is new. The time of the new row's `updated_at` is 1971-01-01. -/
def findOrInsertUser (identityKey : String) : StorageProg (User × Bool) := do
  match ← findUserByIdentityKey identityKey with
  | some user => pure (user, false)
  | none =>
    let now ← utcNow
    let row : User := { createdAt := now, updatedAt := 31536000000, identityKey, activeStorage := "" }
    let id ← exec (.insertUser row)
    pure ({ row with userId := id }, true)

def findOrInsertOutputBasket (userId : Nat) (name : String) : StorageProg OutputBasket := do
  let baskets ← find fun s => s.outputBaskets.find fun b => b.userId == userId && b.name == name
  match ← Prog.ofExcept (verifyOneOrNone baskets) with
  | some basket => pure basket
  | none =>
    let now ← utcNow
    let row : OutputBasket :=
      { createdAt := now, updatedAt := now, userId, name, numberOfDesiredUtxos := 0
        minimumDesiredUtxoValue := 0, isDeleted := false }
    let id ← exec (.insertOutputBasket row)
    pure { row with basketId := id }

def findOrInsertTxLabel (userId : Nat) (label : String) : StorageProg TxLabel := do
  let labels ← find fun s => s.txLabels.find fun l => l.userId == userId && l.label == label
  match ← Prog.ofExcept (verifyOneOrNone labels) with
  | some txLabel => pure txLabel
  | none =>
    let now ← utcNow
    let row : TxLabel := { createdAt := now, updatedAt := now, userId, label, isDeleted := false }
    let id ← exec (.insertTxLabel row)
    pure { row with txLabelId := id }

def findOrInsertOutputTag (userId : Nat) (tag : String) : StorageProg OutputTag := do
  let tags ← find fun s => s.outputTags.find fun t => t.userId == userId && t.tag == tag
  match ← Prog.ofExcept (verifyOneOrNone tags) with
  | some outputTag => pure outputTag
  | none =>
    let now ← utcNow
    let row : OutputTag := { createdAt := now, updatedAt := now, userId, tag, isDeleted := false }
    let id ← exec (.insertOutputTag row)
    pure { row with outputTagId := id }

/-- `update_transaction_status`: the first transaction with the txid gets the status. Inputs and
outputs of the transaction are left alone. -/
def updateTransactionStatus (txid : String) (newStatus : TransactionStatus) :
    StorageProg Unit := do
  match ← find fun s => s.transactions.first (·.txid == some txid) with
  | none => .fail (.invalidParameter "txid" s!"an existing transaction, '{txid}' not found")
  | some tx => exec' (.updateTransaction tx.transactionId { status := some newStatus })

/-- `mark_inputs_spent`: claim the listed outputs that are free; the answer is their number. An
empty list issues no statement. -/
def markInputsSpent (outputIds : List Nat) (transactionId userId : Nat) : StorageProg Nat :=
  if outputIds.isEmpty then pure 0 else exec (.markInputsSpent outputIds transactionId userId)

/-- `release_inputs_spent_by`: an empty list issues no statement. -/
def releaseInputsSpentBy (outputIds : List Nat) (transactionId : Nat) : StorageProg Nat :=
  if outputIds.isEmpty then pure 0 else exec (.releaseInputsSpentBy outputIds transactionId)

/-- `restore_consumed_inputs`: release every output that the transaction claims. -/
def restoreConsumedInputs (txId : Nat) : StorageProg Nat := do
  let outputs ← find fun s => s.outputs.find (·.spentBy == some txId)
  releaseInputsSpentBy (outputs.map (·.outputId)) txId

/-- `update_proven_tx_req_with_new_proven_tx`: link the request to the proof of its txid. Only a
proof that was not stored yet is passed on to the transactions with the txid. -/
def updateProvenTxReqWithNewProvenTx (reqId : Nat) (provenTx : ProvenTx) : StorageProg Nat :=
  Prog.atomically do
    let existing ← find fun s => s.provenTxs.first (·.txid == provenTx.txid)
    let (provenTxId, isNew) ← match existing with
      | some ep => pure (ep.provenTxId, false)
      | none => do
        let id ← exec (.insertProvenTx provenTx)
        pure (id, true)
    exec' (.updateProvenTxReq reqId { provenTxId := some provenTxId, status := some .completed })
    if isNew then
      let matching ← find fun s => s.transactions.find (·.txid == some provenTx.txid)
      forM matching fun t =>
        exec' (.updateTransaction t.transactionId
          { status := some .completed, provenTxId := some provenTxId })
    pure provenTxId

end WalletToolbox.Storage
