import WalletToolbox.Chaintracks.Chaintracks

/-! # Chaintracks over a storage that fails

The two loops over a drained queue, when look-ups and insertions of storage may fail.
`process_pending_headers` returns on the first failure; a pass of the background task puts a header
whose parent it cannot look up at height zero and goes on after a failed insertion.
Which calls fail is part of the step. -/

namespace WalletToolbox.Chaintracks

open WalletToolbox.Lib

/-- How an insertion fails: before it has stored the header, or after. -/
inductive InsertFailure where
  | before
  | after
deriving DecidableEq, Repr

/-- The calls to storage that fail for one header of a batch. -/
structure Failures where
  lookup : Bool := false
  insert : Option InsertFailure := none
deriving DecidableEq, Repr

/-- The look-up of the parent fails. A header without a parent is not looked up. -/
def Failures.parentUnknown (failures : Failures) (base : BaseBlockHeader) : Bool :=
  failures.lookup && !decide base.IsGenesis

/-- `insert_header`, which may fail; `none` when it does not return. -/
def Inner.insertOrFail (reorgHeightThreshold : Nat) (failure : Option InsertFailure)
    (header : LiveBlockHeader) (s : Inner) : Option Inner :=
  match failure with
  | some .before => some s
  | some .after | none => (s.insertHeader reorgHeightThreshold header).map Prod.snd

/-- The header that is handed to storage when its parent may not have been looked up. -/
def Inner.liveHeaderOr (blockHash : BaseBlockHeader → String) (parentUnknown : Bool) (s : Inner)
    (base : BaseBlockHeader) : LiveBlockHeader :=
  if parentUnknown then { s.liveHeader blockHash base with height := 0, previousHeaderId := none }
  else s.liveHeader blockHash base

/-- The loops. The failures are those of the headers of the batch in turn, and none after the end of
the list. -/
def insertOrFailBatch (blockHash : BaseBlockHeader → String) (reorgHeightThreshold : Nat)
    (stopsAtFailure : Bool) : List BaseBlockHeader → List Failures → Inner → Option Inner
  | [], _, s => some s
  | base :: rest, failures, s =>
    let failure := failures.headD {}
    let parentUnknown := failure.parentUnknown base
    if stopsAtFailure && parentUnknown then some s
    else
      match s.insertOrFail reorgHeightThreshold failure.insert
        (s.liveHeaderOr blockHash parentUnknown base) with
      | none => none
      | some s =>
        if stopsAtFailure && failure.insert.isSome then some s
        else
          insertOrFailBatch blockHash reorgHeightThreshold stopsAtFailure rest failures.tail s

/-- The loop of `process_pending_headers`, whose look-up and insertion end in `?`. -/
def processPendingOrFail (blockHash : BaseBlockHeader → String) (reorgHeightThreshold : Nat) :
    List BaseBlockHeader → List Failures → Inner → Option Inner :=
  insertOrFailBatch blockHash reorgHeightThreshold true

/-- The loop of the task of `start_background_sync`. -/
def backgroundPassOrFail (blockHash : BaseBlockHeader → String) (reorgHeightThreshold : Nat) :
    List BaseBlockHeader → List Failures → Inner → Option Inner :=
  insertOrFailBatch blockHash reorgHeightThreshold false

/-- The storage, the queue, and the headers that `add_header` has accepted so far. -/
structure Inbox where
  storage : Inner := {}
  baseHeaders : List BaseBlockHeader := []
  accepted : List BaseBlockHeader := []

inductive InboxCall where
  | addHeader (header : BaseBlockHeader)
  | processPendingHeaders (failures : List Failures)
  | backgroundPass (failures : List Failures)

/-- What a call leaves. The queue is emptied before its headers are processed. -/
def InboxCall.result (blockHash : BaseBlockHeader → String) (reorgHeightThreshold : Nat)
    (i : Inbox) : InboxCall → Option Inbox
  | .addHeader header =>
    some { i with baseHeaders := i.baseHeaders ++ [header], accepted := i.accepted ++ [header] }
  | .processPendingHeaders failures =>
    (processPendingOrFail blockHash reorgHeightThreshold i.baseHeaders failures i.storage).map
      fun storage => { i with storage, baseHeaders := [] }
  | .backgroundPass failures =>
    (backgroundPassOrFail blockHash reorgHeightThreshold i.baseHeaders failures i.storage).map
      fun storage => { i with storage, baseHeaders := [] }

/-- Calls that return, one after the other. -/
def inbox (blockHash : BaseBlockHeader → String) (reorgHeightThreshold : Nat) :
    System Inbox InboxCall where
  init := {}
  Enabled i call := (call.result blockHash reorgHeightThreshold i).isSome
  next call i := (call.result blockHash reorgHeightThreshold i).getD i

instance (blockHash : BaseBlockHeader → String) (reorgHeightThreshold : Nat) (i : Inbox)
    (call : InboxCall) : Decidable ((inbox blockHash reorgHeightThreshold).Enabled i call) :=
  inferInstanceAs (Decidable (_ = true))

end WalletToolbox.Chaintracks
