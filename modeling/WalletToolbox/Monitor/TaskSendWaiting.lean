import WalletToolbox.Lib.Drain
import WalletToolbox.Monitor.Helpers
import WalletToolbox.Storage.Beef

/-! # TaskSendWaiting

Broadcasts the requests that wait for it and have not been updated for a while.
The query is read page by page, by offset, while the requests of a page are sent before the next page
is read.
One timer says when to run, another when a run retries the requests in `sending` as well. -/

namespace WalletToolbox.Monitor

open WalletToolbox.Lib WalletToolbox.Storage

/-- The statuses that the query selects. -/
def waitingStatuses (includeSending : Bool) : List ProvenTxReqStatus :=
  if includeSending then [.unsent, .sending] else [.unsent]

/-- The requests that the query selects, in the order of their ids. -/
def waitingReqs (includeSending : Bool) (d : Tables) : List ProvenTxReq :=
  d.provenTxReqs.find fun r => (waitingStatuses includeSending).contains r.status

/-- The request was updated before the cutoff. -/
def agedReq (agedLimit : Int) (req : ProvenTxReq) : Bool :=
  (req.updatedAt : Int) < agedLimit

/-- The source BEEFs that a broadcast looks up in the active store. -/
def storedBeefs (sdk : Sdk) (bumps : BumpSdk) : SourceBeefs :=
  fun s txid => getValidBeefForTxid sdk bumps .no [] s.toTables txid

/-- The requests of a page that are old enough are sent. -/
def sendPage (sdk : Sdk) (bumps : BumpSdk) (services : Services) (agedLimit : Int)
    (reqs : List ProvenTxReq) : StorageProg Unit := do
  let agedReqs := reqs.filter (agedReq agedLimit)
  if agedReqs.isEmpty then
    pure ()
  else
    let _ ← attemptToPostReqsToNetwork sdk (storedBeefs sdk bumps) services agedReqs
    pure ()

/-- `run_task`. It answers with the requests that it passed on to be posted.
The loop reads at most one page more than there are rows. -/
def runSendWaiting (sdk : Sdk) (bumps : BumpSdk) (services : Services) (agedMsecs : UInt64)
    (includeSending : Bool) : StorageProg (List ProvenTxReq) := do
  let now ← utcNow
  let agedLimit := (now : Int) - asI64 agedMsecs.toNat
  let rows ← find fun s => s.provenTxReqs.rows.length
  let reqs ← Prog.sweep 100 (fun s => waitingReqs includeSending s.toTables)
    (sendPage sdk bumps services agedLimit) (rows + 1) 0
  pure (reqs.filter (agedReq agedLimit))

/-! ## The timers -/

/-- The timers of `TaskSendWaiting`, in milliseconds. Sums wrap, as in a release build. -/
structure SendTimers where
  triggerMsecs : UInt64 := 8000
  sendingMsecs : UInt64 := 300000
  lastRunMsecs : UInt64 := 0
  lastSendingRunMsecs : Option UInt64 := none
  includeSending : Bool := true

/-- `with_intervals`. -/
def SendTimers.withIntervals (triggerMsecs sendingMsecs : UInt64) : SendTimers :=
  { triggerMsecs, sendingMsecs }

/-- A timer that fired at `last` is due again. -/
def isDue (period last now : UInt64) : Bool :=
  decide (last + period < now)

/-- The timer of the retries is due; it is when it has not fired yet. -/
def SendTimers.retryDue (t : SendTimers) (now : UInt64) : Bool :=
  match t.lastSendingRunMsecs with
  | none => true
  | some last => isDue t.sendingMsecs last now

/-- `trigger`: the timer of the retries is wound up whether or not the task is to run. -/
def SendTimers.trigger (t : SendTimers) (nowMsecsSinceEpoch : UInt64) : Bool × SendTimers :=
  let t := { t with includeSending := t.retryDue nowMsecsSinceEpoch }
  let t := if t.includeSending then { t with lastSendingRunMsecs := some nowMsecsSinceEpoch } else t
  if isDue t.triggerMsecs t.lastRunMsecs nowMsecsSinceEpoch then
    (true, { t with lastRunMsecs := nowMsecsSinceEpoch })
  else
    (false, t)

end WalletToolbox.Monitor
