import WalletToolbox.Sdk
import WalletToolbox.Storage.Provider

/-! # TaskReviewStatus

The review of statuses that other operations have left behind.
The storage sets aged requests that wait for a broadcast back to `unsent`; the task only computes the
age limit. -/

namespace WalletToolbox.Monitor

open WalletToolbox.Lib WalletToolbox.Storage

/-- The statuses that the review looks for. -/
def stale (status : ProvenTxReqStatus) : Bool :=
  status == .unsent || status == .sending

/-- One stale request; the answer is the number of those that were reset. -/
def resetStale (agedLimit : Int) (corrected : Nat) (req : ProvenTxReq) : StorageProg Nat :=
  if (req.updatedAt : Int) < agedLimit then do
    exec' (.updateProvenTxReq req.provenTxReqId { status := some .unsent })
    pure (corrected + 1)
  else pure corrected

/-- `review_status`. -/
def reviewStatus (agedLimit : Int) : StorageProg String := do
  let reqs ← find fun s => s.provenTxReqs.find fun r => stale r.status
  let corrected ← reqs.foldlM (resetStale agedLimit) 0
  pure s!"review_status: checked {reqs.length} reqs, corrected {corrected}"

/-- `run_task`. -/
def runReviewStatus (agedLimitMsecs : UInt64) : StorageProg String := do
  let now ← utcNow
  reviewStatus ((now : Int) - asI64 agedLimitMsecs.toNat)

end WalletToolbox.Monitor
