import WalletToolbox.Lib.Drain
import WalletToolbox.Monitor.Helpers

/-! # TaskCheckForProofs

Asks for the proofs of the requests that were broadcast.
The query is read page by page, by offset, while the requests of a page are looked up before the next
page is read. -/

namespace WalletToolbox.Monitor

open WalletToolbox.Lib WalletToolbox.Storage

/-- The statuses that the query selects. -/
def checkedStatuses : List ProvenTxReqStatus :=
  [.callback, .unmined, .sending, .unknown, .unconfirmed]

/-- The requests that the query selects, in the order of their ids. -/
def uncheckedReqs (d : Tables) : List ProvenTxReq :=
  d.provenTxReqs.find fun r => checkedStatuses.contains r.status

/-- The height that stands for an unknown one. -/
def unknownHeight : UInt32 := 0xFFFFFFFF

/-- One page; the result of the lookup is only logged and reported. -/
def checkPage (services : Services) (params : ProofParams) (reqs : List ProvenTxReq) :
    StorageProg Unit := do
  let _ ← getProofs services params reqs
  pure ()

/-- `run_task`. It answers with the requests that it passed on to `get_proofs`.
Without a header height nothing is checked. The loop reads at most one page more than there are
rows. -/
def runCheckForProofs (services : Services) (unprovenAttemptsLimit : UInt32) (checkNow : Bool)
    (lastNewHeaderHeight : UInt32) : StorageProg (List ProvenTxReq) :=
  if lastNewHeaderHeight = unknownHeight then pure []
  else do
    let rows ← find fun s => s.provenTxReqs.rows.length
    Prog.sweep 100 (fun s => uncheckedReqs s.toTables)
      (checkPage services
        { unprovenAttemptsLimit, countsAsAttempt := checkNow
          maxAcceptableHeight := some lastNewHeaderHeight.toNat }) (rows + 1) 0

end WalletToolbox.Monitor
