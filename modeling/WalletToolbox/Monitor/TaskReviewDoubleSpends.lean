import WalletToolbox.Lib.Calls
import WalletToolbox.Services
import WalletToolbox.Storage.Provider

/-! # TaskReviewDoubleSpends

Asks the services again about requests that were flagged as double spends, one page a run.
Where the next run resumes is a checkpoint among the monitor events, with the id of the request that
should be found there. -/

namespace WalletToolbox.Monitor

open WalletToolbox.Lib WalletToolbox.Storage

/-! ## Monitor events -/

structure MonitorEvent where
  createdAt : Nat := 0
  updatedAt : Nat := 0
  id : Nat := 0
  event : String
  details : Option Json

instance : Keyed MonitorEvent := ⟨MonitorEvent.id⟩

/-- `LIMIT` and `OFFSET` of a query. -/
def sqlPage {α : Type} (limit offset : Int) (rows : List α) : List α :=
  let rest := rows.drop offset.toNat
  if limit < 0 then rest else rest.take limit.toNat

/-- The name under which the task keeps its checkpoints. -/
def reviewEvent : String := "ReviewDoubleSpends"

/-- `ReviewDoubleSpendCheckpoint`. -/
structure ReviewDoubleSpendCheckpoint where
  resumeOffset : Int
  expectedProvenTxReqId : Option Int
  reviewLimit : Int
  minAgeMinutes : Nat
  reviewed : Nat
  unfails : Nat

/-- A checkpoint as the details of an event; an id that is not there is not written. -/
def ReviewDoubleSpendCheckpoint.toJson (cp : ReviewDoubleSpendCheckpoint) : Json :=
  .obj ([("resumeOffset", .num cp.resumeOffset)] ++
    (cp.expectedProvenTxReqId.map fun id => ("expectedProvenTxReqId", Json.num id)).toList ++
    [("reviewLimit", .num cp.reviewLimit), ("minAgeMinutes", .num cp.minAgeMinutes),
      ("reviewed", .num cp.reviewed), ("unfails", .num cp.unfails)])

def natOf? (j : Json) : Option Nat :=
  j.asInt?.bind fun n => if 0 ≤ n then some n.toNat else none

def optIntOf? : Option Json → Option (Option Int)
  | none => some none
  | some .null => some none
  | some j => j.asInt?.map some

def ReviewDoubleSpendCheckpoint.ofJson (j : Json) : Option ReviewDoubleSpendCheckpoint := do
  let resumeOffset ← (j.get? "resumeOffset").bind Json.asInt?
  let expectedProvenTxReqId ← optIntOf? (j.get? "expectedProvenTxReqId")
  let reviewLimit ← (j.get? "reviewLimit").bind Json.asInt?
  let minAgeMinutes ← (j.get? "minAgeMinutes").bind natOf?
  let reviewed ← (j.get? "reviewed").bind natOf?
  let unfails ← (j.get? "unfails").bind natOf?
  pure { resumeOffset, expectedProvenTxReqId, reviewLimit, minAgeMinutes, reviewed, unfails }

/-! ## The task -/

/-- The settings of the task. -/
structure TaskReviewDoubleSpends where
  reviewLimit : Int := 100
  minAgeMinutes : UInt64 := 60

/-- What a run works on: the database with its monitor events, the flag of the task that shortens
its trigger, and the txids that the services were asked about so far. -/
structure ReviewState where
  store : Store
  events : Table MonitorEvent := Table.empty
  useQuickTrigger : Bool := false
  asked : List String := []

abbrev ReviewM := ExceptT WalletError (StateM ReviewState)

/-- The requests that the query selects, in the order of their ids. -/
def doubleSpends (d : Tables) : List ProvenTxReq :=
  d.provenTxReqs.find (·.status == .doubleSpend)

/-- `find_monitor_events` for the checkpoints, in the order of their ids. -/
def reviewEvents (events : Table MonitorEvent) : List MonitorEvent :=
  events.find (·.event == reviewEvent)

def MonitorEvent.checkpoint (e : MonitorEvent) : Option ReviewDoubleSpendCheckpoint :=
  e.details.bind ReviewDoubleSpendCheckpoint.ofJson

/-- `get_last_checkpoint`: the first of five events that can be read. -/
def getLastCheckpoint (events : Table MonitorEvent) : Option (Int × Option Int) :=
  ((sqlPage 5 0 (reviewEvents events)).findSome? MonitorEvent.checkpoint).map fun cp =>
    (cp.resumeOffset, cp.expectedProvenTxReqId)

/-- `purge_old_checkpoints`. -/
def purgeOldCheckpoints (events : Table MonitorEvent) : Table MonitorEvent :=
  let checkpoints := reviewEvents events
  if checkpoints.length ≤ 1 then events
  else
    let maxId := (checkpoints.map (·.id)).foldl max 0
    events.delete fun e => e.event == reviewEvent && e.id < maxId

/-- `save_checkpoint`. -/
def saveCheckpoint (now : Nat) (cp : ReviewDoubleSpendCheckpoint) (events : Table MonitorEvent) :
    Table MonitorEvent :=
  events.insert (fun id =>
    { createdAt := toSeconds now, updatedAt := toSeconds now, id, event := reviewEvent
      details := some cp.toJson }) fun _ => rfl

/-- Where a run begins: behind the request of the checkpoint if it is still at its place. -/
def startOffset (requests : List ProvenTxReq) : Option (Int × Option Int) → Int
  | none => 0
  | some (resumeOffset, none) => resumeOffset
  | some (resumeOffset, some expected) =>
    match (sqlPage 1 resumeOffset requests).head? with
    | some r => if (r.provenTxReqId : Int) ≠ expected then 0 else resumeOffset + 1
    | none => 0

/-- What a run counts. -/
structure Tally where
  unfailed : Nat := 0
  stillUnknown : Nat := 0
  lastDoubleSpendId : Option Int := none
  retainedCount : Int := 0

/-- Whether the services do not know a transaction; no answer counts as that. -/
def isUnknown (services : Services) (txid : String) : Bool :=
  match (services.getStatusForTxids [txid]).results.head? with
  | some r => r.status == "unknown"
  | none => true

/-- One request of the page. -/
def reviewReq (services : Services) (tally : Tally) (req : ProvenTxReq) : ReviewM Tally := do
  modify fun w => { w with asked := w.asked ++ [req.txid] }
  if isUnknown services req.txid then
    pure { tally with
      stillUnknown := tally.stillUnknown + 1, lastDoubleSpendId := some req.provenTxReqId
      retainedCount := tally.retainedCount + 1 }
  else
    let w ← get
    match (Prog.exec (.updateProvenTxReq req.provenTxReqId { status := some .unfail })).run
        Stmt.exec w.store with
    | (.ok _, store) => set { w with store }
    | (.error e, _) => throw e
    pure { tally with unfailed := tally.unfailed + 1 }

/-- `run_task`. -/
def runReviewDoubleSpends (task : TaskReviewDoubleSpends) (services : Services) : ReviewM String := do
  let w ← get
  let now := w.store.now
  let ageCutoff := (now : Int) - 60000 * asI64 task.minAgeMinutes.toNat
  let requests := doubleSpends w.store.toTables
  let offset := startOffset requests (getLastCheckpoint w.events)
  let reqs := (sqlPage task.reviewLimit offset requests).filter fun r => (r.updatedAt : Int) ≤ ageCutoff
  if reqs.isEmpty then
    modify fun w => { w with useQuickTrigger := false, events := purgeOldCheckpoints w.events }
    pure ""
  else
    modify fun w => { w with useQuickTrigger := task.reviewLimit ≤ (reqs.length : Int) }
    let tally ← reqs.foldlM (reviewReq services) {}
    let cp : ReviewDoubleSpendCheckpoint :=
      { resumeOffset := if tally.lastDoubleSpendId.isSome then offset + tally.retainedCount - 1 else 0
        expectedProvenTxReqId := tally.lastDoubleSpendId, reviewLimit := task.reviewLimit
        minAgeMinutes := task.minAgeMinutes.toNat, reviewed := reqs.length
        unfails := tally.unfailed }
    modify fun w => { w with events := saveCheckpoint now cp w.events }
    pure (s!"reviewed {reqs.length} double-spend reqs (offset {offset}): {tally.unfailed} unfailed, " ++
      s!"{tally.stillUnknown} still unknown")

end WalletToolbox.Monitor
