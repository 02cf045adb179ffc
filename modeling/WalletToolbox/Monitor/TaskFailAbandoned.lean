import WalletToolbox.Lib.Drain
import WalletToolbox.Sdk
import WalletToolbox.Storage.Provider

/-! # TaskFailAbandoned

Fails transactions that are unsigned or unprocessed and have not been updated for a while, and
releases the outputs that they claim.
The query is read page by page, by offset, while the rows it has dealt with leave it. -/

namespace WalletToolbox.Monitor

open WalletToolbox.Lib WalletToolbox.Storage

/-- The statuses that the query selects. -/
def abandonable (status : TransactionStatus) : Bool :=
  status == .unprocessed || status == .unsigned

/-- One page of the query, in the order of the ids. -/
def abandonedPage (offset : Nat) (d : Tables) : List Transaction :=
  ((d.transactions.find fun t => abandonable t.status).drop offset).take 100

/-- One abandoned row. A row without a txid is skipped; an error is logged only. -/
def failTx (tx : Transaction) : StorageProg Unit :=
  match tx.txid with
  | none => pure ()
  | some txid => do
    match ← (updateTransactionStatus txid .failed).attempt with
    | .ok _ => ignore (restoreConsumedInputs tx.transactionId)
    | .error _ => pure ()

/-- The loop over the pages; a page that is not full is the last one. -/
def failPages (cutoff : Int) : Nat → Nat → StorageProg Unit
  | 0, _ => pure ()
  | fuel + 1, offset => do
    let txs ← find fun s => abandonedPage offset s.toTables
    forM (txs.filter fun tx => (tx.updatedAt : Int) < cutoff) failTx
    if txs.length < 100 then pure () else failPages cutoff fuel (offset + 100)

/-- `run_task`. The loop reads at most one page more than there are rows. -/
def failAbandoned (abandonedMsecs : UInt64) : StorageProg Unit := do
  let now ← utcNow
  let rows ← find fun s => s.transactions.rows.length
  failPages ((now : Int) - asI64 abandonedMsecs.toNat) (rows + 1) 0

/-! ## The run with an answer -/

/-- The transactions that the query selects. -/
def abandonableTxs (d : Tables) : List Transaction :=
  d.transactions.find fun t => abandonable t.status

/-- The rows of a page that are old enough. -/
def aged (cutoff : Int) (tx : Transaction) : Bool :=
  (tx.updatedAt : Int) < cutoff

/-- `run_task`, answering with the transactions whose status it asked to be set to failed. -/
def runFailAbandoned (abandonedMsecs : UInt64) : StorageProg (List Transaction) := do
  let now ← utcNow
  let cutoff := (now : Int) - asI64 abandonedMsecs.toNat
  let rows ← find fun s => s.transactions.rows.length
  let txs ← Prog.sweep 100 (fun s => abandonableTxs s.toTables)
    (fun txs => forM (txs.filter (aged cutoff)) failTx) (rows + 1) 0
  pure (txs.filter fun tx => aged cutoff tx && tx.txid.isSome)

end WalletToolbox.Monitor
