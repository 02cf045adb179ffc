import WalletToolbox.Monitor.TaskArcSse
import WalletToolbox.Monitor.TaskUnfail

/-! # process_status_event

What `TaskArcSse` does in the database about one streamed event.
Every statement commits on its own and its error is ignored; the log and the callback are left
out. -/

namespace WalletToolbox.Monitor

open WalletToolbox.Lib WalletToolbox.Storage WalletToolbox.ArcSse

/-- `TERMINAL_STATUSES`. -/
def terminalStatuses : List ProvenTxReqStatus :=
  [.completed, .invalid, .doubleSpend]

/-- The statuses of an event that say that the network has the transaction. -/
def acceptedStatuses : List String :=
  ["SENT_TO_NETWORK", "ACCEPTED_BY_NETWORK", "SEEN_ON_NETWORK"]

def minedStatuses : List String :=
  ["MINED", "IMMUTABLE"]

/-- The statuses of a request that such an event moves on. -/
def preMiningStatuses : List ProvenTxReqStatus :=
  [.unsent, .sending, .callback]

/-- Give the request a status, and the transactions that it notifies another. -/
def settleReq (req : ProvenTxReq) (reqStatus : ProvenTxReqStatus) (txStatus : TransactionStatus) :
    StorageProg Unit := do
  ignore (exec (.updateProvenTxReq req.provenTxReqId { status := some reqStatus }))
  forM (notifyIds req) fun id => ignore (exec (.updateTransaction id { status := some txStatus }))

/-- One request with the txid of the event. -/
def processStatusReq (txStatus : String) (req : ProvenTxReq) : StorageProg Unit :=
  if req.status ∈ terminalStatuses then pure ()
  else if txStatus ∈ acceptedStatuses then
    if req.status ∈ preMiningStatuses then settleReq req .unmined .unproven else pure ()
  else if txStatus ∈ minedStatuses then
    -- the proof is left to `TaskCheckForProofs`
    ignore (exec (.updateProvenTxReq req.provenTxReqId { status := some .unmined }))
  else if txStatus = "DOUBLE_SPEND_ATTEMPTED" then settleReq req .doubleSpend .failed
  else if txStatus = "REJECTED" then settleReq req .invalid .failed
  else pure ()

/-- `process_status_event`. -/
def processStatusEvent (event : ArcSseEvent) : StorageProg Unit := do
  let reqs ← find fun s => s.provenTxReqs.find (·.txid == event.txid)
  forM reqs (processStatusReq event.txStatus)

end WalletToolbox.Monitor
