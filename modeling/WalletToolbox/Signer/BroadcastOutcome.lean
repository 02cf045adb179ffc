import WalletToolbox.Services
import WalletToolbox.Storage.Provider

/-! # Broadcast outcomes applied by the signer

The classifier of the providers' answers and the state changes that an outcome causes.
A permanent failure is first reconciled with the chain and then applied as one database
transaction; the other outcomes are statements that commit on their own. -/

namespace WalletToolbox.Signer

open WalletToolbox.Lib WalletToolbox.Storage

inductive BroadcastOutcome where
  | success
  | serviceError (details : List String)
  | invalidTx (details : List String)
  | doubleSpend (competingTxs details : List String)
  | orphanMempool (details : List String)

/-- Whether an outcome is that of an orphan. -/
def BroadcastOutcome.isOrphan : BroadcastOutcome → Bool
  | .orphanMempool _ => true
  | _ => false

/-- What the classifier has seen so far. -/
structure Seen where
  success : Bool := false
  doubleSpend : Bool := false
  orphan : Bool := false
  invalid : Bool := false
  competingTxs : List String := []
  details : List String := []

/-- Add one provider's answer about one txid. -/
def Seen.addTxid (provider : String) (seen : Seen) (r : PostTxResultForTxid) : Seen :=
  if r.status == "success" then
    { seen with success := true }
  else
    let seen := { seen with details := seen.details ++ [s!"{provider}: {r.status} (txid={r.txid})"] }
    if r.doubleSpend == some true then
      { seen with doubleSpend := true, competingTxs := seen.competingTxs ++ r.competingTxs.getD [] }
    else if r.orphanMempool == some true then
      { seen with orphan := true }
    else if r.serviceError != some true then
      { seen with invalid := true }
    else
      seen

def Seen.addProvider (seen : Seen) (p : PostBeefResult) : Seen :=
  p.txidResults.foldl (Seen.addTxid p.name)
    { seen with success := seen.success || p.status == "success" }

/-- `classify_broadcast_results`: double-spend, then success, invalid, orphan, service error. -/
def classifyBroadcastResults (results : List PostBeefResult) : BroadcastOutcome :=
  let seen := results.foldl Seen.addProvider {}
  if seen.doubleSpend then .doubleSpend seen.competingTxs seen.details
  else if seen.success then .success
  else if seen.invalid then .invalidTx seen.details
  else if seen.orphan then .orphanMempool seen.details
  else .serviceError seen.details

/-- `reconcile_tx_status`: the chain may know a transaction that a provider rejected. -/
def reconcileTxStatus (services : Services) (txid : String) (outcome : BroadcastOutcome) :
    BroadcastOutcome :=
  match outcome with
  | .success | .serviceError _ | .orphanMempool _ => outcome
  | .invalidTx _ | .doubleSpend _ _ =>
    let answer := services.getStatusForTxids [txid]
    if answer.status != "success" then
      .serviceError [answer.error.getD "chain status query failed"]
    else if answer.results.any fun r => r.status == "mined" || r.status == "known" then
      .success
    else
      outcome

/-- `apply_success_or_orphan_outcome`: storage errors are ignored. -/
def applySuccessOrOrphanOutcome (txid : String) (outcome : BroadcastOutcome) :
    StorageProg Unit := do
  ignore (updateTransactionStatus txid (if outcome.isOrphan then .sending else .unproven))
  let reqs ← find fun s => s.provenTxReqs.find (·.txid == txid)
  forM reqs fun req =>
    ignore (exec (.updateProvenTxReq req.provenTxReqId
      { status := some (if outcome.isOrphan then .sending else .unmined) }))

/-- `i32::saturating_add(1)`. -/
def saturatingSucc (n : Int) : Int :=
  min (n + 1) 2147483647

/-- `apply_service_error_outcome`: back to `Sending` so that the monitor retries. -/
def applyServiceErrorOutcome (txid : String) : StorageProg Unit := do
  let reqs ← find fun s => s.provenTxReqs.find (·.txid == txid)
  forM reqs fun req =>
    exec' (.updateProvenTxReq req.provenTxReqId
      { status := some .sending, attempts := some (saturatingSucc req.attempts) })
  updateTransactionStatus txid .sending

/-- The txid of the outpoint of an output row, looked up in its transaction when absent. -/
def parentTxid (s : Store) (o : Output) : Option String :=
  match o.txid with
  | some txid => some txid
  | none => (s.transactions.first (·.transactionId == o.transactionId)).bind (·.txid)

/-- An input that the chain reports as unspent. Anything uncertain counts as spent. -/
def utxoVerified (services : Services) (s : Store) (o : Output) : Bool :=
  match parentTxid s o, o.lockingScript with
  | some txid, some script =>
    !script.isEmpty && (match services.isUtxo script txid o.vout with | .ok b => b | .error _ => false)
  | _, _ => false

/-- `utxo_verified_input_ids`. -/
def utxoVerifiedInputIds (services : Services) (failedTransactionId : Nat) :
    StorageProg (List Nat) :=
  find fun s => ((s.outputs.find (·.spentBy == some failedTransactionId)).filter
    (utxoVerified services s)).map (·.outputId)

/-- The database transaction of a permanent failure: fail the transaction and its requests,
retire its outputs and release its inputs. `safeIds` are the inputs that a double spend may
release; an invalid transaction releases all of them. -/
def failPermanently (txid : String) (transactionId : Nat) (reqStatus : ProvenTxReqStatus)
    (safeIds : Option (List Nat)) : StorageProg Unit := do
  updateTransactionStatus txid .failed
  let reqs ← find fun s => s.provenTxReqs.find (·.txid == txid)
  forM reqs fun req => exec' (.updateProvenTxReq req.provenTxReqId { status := some reqStatus })
  let outputs ← find fun s => s.outputs.find (·.transactionId == transactionId)
  forM outputs fun o => exec' (.updateOutput o.outputId { spendable := some false })
  let ids ← match safeIds with
    | some ids => pure ids
    | none => find fun s => (s.outputs.find fun o =>
        o.spentBy == some transactionId && o.spendable == false).map (·.outputId)
  let _ ← releaseInputsSpentBy ids transactionId
  pure ()

/-- Apply a permanent failure that reconciliation left standing. -/
def applyPermanentFailure (services : Services) (txid : String) (doubleSpend : Bool) :
    StorageProg Unit := do
  match ← find fun s => s.transactions.first (·.txid == some txid) with
  | none => pure ()
  | some tx =>
    if doubleSpend then
      let safeIds ← utxoVerifiedInputIds services tx.transactionId
      Prog.atomically (failPermanently txid tx.transactionId .doubleSpend (some safeIds))
    else
      Prog.atomically (failPermanently txid tx.transactionId .invalid none)

/-- `handle_permanent_broadcast_failure`. -/
def handlePermanentBroadcastFailure (services : Services) (txid : String)
    (outcome : BroadcastOutcome) : StorageProg BroadcastOutcome := do
  let effective := reconcileTxStatus services txid outcome
  match effective with
  | .success => pure effective
  | .serviceError _ =>
    applyServiceErrorOutcome txid
    pure effective
  | .doubleSpend _ _ =>
    applyPermanentFailure services txid true
    pure effective
  | .invalidTx _ =>
    applyPermanentFailure services txid false
    pure effective
  | .orphanMempool _ => pure effective

/-- What createAction and signAction do with the answers to a broadcast. An error of the
handler is logged only. -/
def applyBroadcast (services : Services) (txid : String) (results : List PostBeefResult) :
    StorageProg Unit := do
  let outcome := classifyBroadcastResults results
  match outcome with
  | .success | .orphanMempool _ =>
    ignore (applySuccessOrOrphanOutcome txid outcome)
  | .doubleSpend _ _ | .invalidTx _ =>
    ignore (handlePermanentBroadcastFailure services txid outcome)
  | .serviceError _ =>
    ignore (applyServiceErrorOutcome txid)

end WalletToolbox.Signer
