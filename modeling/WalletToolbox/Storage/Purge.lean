import WalletToolbox.Storage.Beef
import WalletToolbox.Storage.Provider

/-! # Purging

Old requests that are over are deleted, and old transactions with all that belongs to them once none
of their outputs is spendable.
A transaction stays as long as the BEEF of a spendable output needs it.
The log of monitor events, which a purge shortens as well, is left out. -/

namespace WalletToolbox.Storage

open WalletToolbox.Lib

/-- What is purged, and from what age in milliseconds. -/
structure PurgeParams where
  purgeSpent : Bool := false
  purgeCompleted : Bool := false
  purgeFailed : Bool := true
  purgeSpentAge : Nat := 2 * 604800000
  purgeCompletedAge : Nat := 2 * 604800000
  purgeFailedAge : Nat := 5 * 86400000

/-- The statements of a purge. -/
inductive PurgeStmt where
  | deleteReqs (status : ProvenTxReqStatus) (cutoff : Int)
  | clearSpentBy (transactionId : Nat)
  | deleteTagMaps (transactionId : Nat)
  | deleteOutputs (transactionId : Nat)
  | deleteLabelMaps (transactionId : Nat)
  | deleteCommissions (transactionId : Nat)
  | deleteTransaction (transactionId : Nat)

/-- The requests that `DELETE FROM proven_tx_reqs` selects. -/
def oldReq (status : ProvenTxReqStatus) (cutoff : Int) (r : ProvenTxReq) : Bool :=
  r.status == status && (r.updatedAt : Int) < cutoff

/-- An output that is not spendable and is claimed by the transaction. -/
def spentIn (transactionId : Nat) (o : Output) : Bool :=
  !o.spendable && o.spentBy == some transactionId

def Output.clearSpentBy (o : Output) : Output :=
  { o with spentBy := none }

/-- The tag is on an output of the transaction. -/
def tagsOutputOf (d : Tables) (transactionId : Nat) (m : OutputTagMap) : Bool :=
  d.outputs.exists? fun o => o.transactionId == transactionId && o.outputId == m.outputId

/-- The number of rows a statement affects and the tables it leaves. -/
def PurgeStmt.apply (d : Tables) : PurgeStmt → Nat × Tables
  | .deleteReqs status cutoff =>
    ((d.provenTxReqs.find (oldReq status cutoff)).length,
      { d with provenTxReqs := d.provenTxReqs.delete (oldReq status cutoff) })
  | .clearSpentBy id =>
    ((d.outputs.find (spentIn id)).length,
      { d with outputs := d.outputs.update (spentIn id) Output.clearSpentBy fun _ => rfl })
  | .deleteTagMaps id =>
    ((d.outputTagMaps.find (tagsOutputOf d id)).length,
      { d with outputTagMaps := d.outputTagMaps.delete (tagsOutputOf d id) })
  | .deleteOutputs id =>
    ((d.outputs.find (·.transactionId == id)).length,
      { d with outputs := d.outputs.delete (·.transactionId == id) })
  | .deleteLabelMaps id =>
    ((d.txLabelMaps.find (·.transactionId == id)).length,
      { d with txLabelMaps := d.txLabelMaps.delete (·.transactionId == id) })
  | .deleteCommissions id =>
    ((d.commissions.find (·.transactionId == id)).length,
      { d with commissions := d.commissions.delete (·.transactionId == id) })
  | .deleteTransaction id =>
    ((d.transactions.find (·.transactionId == id)).length,
      { d with transactions := d.transactions.delete (·.transactionId == id) })

/-- Execute a statement; the engine refuses it when a constraint would not hold after it. -/
def PurgeStmt.exec (w : PurgeStmt) (s : Store) : Except WalletError (Nat × Store) :=
  let r := w.apply s.toTables
  if hf : r.2.ForeignKeys then
    if hu : r.2.UniqueKeys then
      .ok (r.1, ⟨r.2, hu, hf⟩)
    else
      .error (.sqlx "UNIQUE constraint failed")
  else
    .error (.sqlx "FOREIGN KEY constraint failed")

abbrev PurgeProg := Prog Store PurgeStmt WalletError

/-- The time that is `age` before now. -/
def cutoff (d : Tables) (age : Nat) : Int :=
  (d.now : Int) - asI64 age

/-- Delete the old requests with a status. -/
def purgeReqs (status : ProvenTxReqStatus) (age : Nat) : PurgeProg Nat := do
  let before ← Prog.ask fun s => cutoff s.toTables age
  Prog.exec (.deleteReqs status before)

/-! ## Spent transactions -/

/-- The statuses of the transactions whose spendable outputs count. -/
def dependentStatuses : List TransactionStatus :=
  [.sending, .unproven, .completed, .nosend]

/-- The spendable outputs that may depend on older transactions for their BEEFs. -/
def spendableOutputs (d : Tables) : List Output :=
  d.outputs.find fun o => o.spendable && d.transactions.exists? fun t =>
    t.transactionId == o.transactionId && dependentStatuses.contains t.status

/-- The txids in the BEEF of an output; an output without a txid or without a BEEF has none. -/
def outputProofTxids (sdk : Sdk) (bumps : BumpSdk) (output : Output) : PurgeProg (List String) :=
  match output.txid with
  | none => pure []
  | some txid => do
    match ← Prog.ask fun s => getValidBeefForTxid sdk bumps .no [] s.toTables txid with
    | .error e => .fail (.internal e)
    | .ok none => pure []
    | .ok (some bytes) =>
      match sdk.parseBeef bytes with
      | .error e =>
        .fail (.internal s!"purge_data: failed to parse proof BEEF for {txid}: {e}")
      | .ok beef => pure (beef.txs.map (·.txid))

/-- Every transaction in those proof chains is kept. -/
def collectProofTxids (sdk : Sdk) (bumps : BumpSdk) : PurgeProg (List String) := do
  let outputs ← Prog.ask fun s => spendableOutputs s.toTables
  outputs.foldlM (fun txids output => do
    let more ← outputProofTxids sdk bumps output
    pure (txids ++ more)) []

/-- The completed transactions that are old and have no spendable output. -/
def purgeCandidates (d : Tables) (before : Int) : List Transaction :=
  d.transactions.find fun t => t.updatedAt < before && t.status == .completed &&
    !d.outputs.exists? fun o => o.transactionId == t.transactionId && o.spendable

/-- The claims of the transaction are cleared, then the rows that refer to its outputs, the outputs
and the other rows that refer to the transaction go before the transaction itself. -/
def purgeTransaction (transactionId : Nat) : PurgeProg Nat := do
  let _ ← Prog.exec (.clearSpentBy transactionId)
  let _ ← Prog.exec (.deleteTagMaps transactionId)
  let _ ← Prog.exec (.deleteOutputs transactionId)
  let _ ← Prog.exec (.deleteLabelMaps transactionId)
  let _ ← Prog.exec (.deleteCommissions transactionId)
  Prog.exec (.deleteTransaction transactionId)

/-- The transactions go one after the other; the answer is their number. -/
def purgeTransactions (transactionIds : List Nat) : PurgeProg Nat :=
  transactionIds.foldlM (fun deleted id => do
    let rows ← purgeTransaction id
    pure (deleted + rows)) 0

/-- The candidates whose txid is in none of the proof chains. -/
def unneeded (proofTxids : List String) (candidates : List Transaction) : List Nat :=
  (candidates.filter fun t => t.txid.all (!proofTxids.contains ·)).map (·.transactionId)

def purgeSpent (sdk : Sdk) (bumps : BumpSdk) (age : Nat) : PurgeProg Nat := do
  let before ← Prog.ask fun s => cutoff s.toTables age
  let proofTxids ← collectProofTxids sdk bumps
  let candidates ← Prog.ask fun s => purgeCandidates s.toTables before
  Prog.atomically (purgeTransactions (unneeded proofTxids candidates))

/-! ## The purge -/

/-- One part of the purge, with what it says about itself. -/
def purgePart (wanted : Bool) (what : String) (part : PurgeProg Nat) : PurgeProg (List String) :=
  if wanted then do
    let rows ← part
    pure [s!"purged {rows} {what}"]
  else pure []

/-- `purge_data`. -/
def purgeData (sdk : Sdk) (bumps : BumpSdk) (params : PurgeParams) : PurgeProg String := do
  let failed ← purgePart params.purgeFailed "failed reqs" (purgeReqs .invalid params.purgeFailedAge)
  let completed ← purgePart params.purgeCompleted "completed reqs"
    (purgeReqs .completed params.purgeCompletedAge)
  let spent ← purgePart params.purgeSpent "spent transactions"
    (purgeSpent sdk bumps params.purgeSpentAge)
  pure ("; ".intercalate (failed ++ completed ++ spent))

end WalletToolbox.Storage
