import WalletToolbox.Lib.Group
import WalletToolbox.Methods.CreateAction

/-! # listActions

Selects a page of the user's transactions, filters it by labels, and describes each selected
transaction with its labels, outputs and inputs, which are read for all of them in chunks of ids.
The reads run one by one; here they see one store. -/

namespace WalletToolbox.Storage

open WalletToolbox.Lib

/-- A cast to `u32`. -/
def asU32 (n : Int) : UInt32 :=
  UInt32.ofNat (n % 4294967296).toNat

inductive QueryMode where
  | any | all
deriving DecidableEq

inductive ActionStatus where
  | completed | unprocessed | sending | unproven | unsigned | noSend | nonFinal
deriving DecidableEq

structure ListActionsArgs where
  labels : List String
  labelQueryMode : Option QueryMode
  includeLabels : Bool
  includeInputs : Bool
  includeInputSourceLockingScripts : Bool
  includeOutputs : Bool
  includeOutputLockingScripts : Bool
  limit : Option UInt32
  offset : Option UInt32

structure ActionInput where
  sourceOutpoint : String
  sourceSatoshis : UInt64
  sourceLockingScript : Option Bytes
  unlockingScript : Option Bytes
  inputDescription : String
  sequenceNumber : UInt32

structure ActionOutput where
  satoshis : UInt64
  lockingScript : Option Bytes
  spendable : Bool
  customInstructions : Option String
  tags : List String
  outputIndex : UInt32
  outputDescription : String
  basket : Option String

structure Action where
  txid : String
  satoshis : Int
  status : ActionStatus
  isOutgoing : Bool
  description : String
  labels : Option (List String)
  version : UInt32
  lockTime : UInt32
  inputs : Option (List ActionInput)
  outputs : Option (List ActionOutput)

structure ListActionsResult where
  totalActions : Nat
  actions : List Action

/-- `DEFAULT_STATI`. -/
def defaultStati : List TransactionStatus :=
  [.completed, .unprocessed, .sending, .unproven, .unsigned, .nosend, .nonfinal]

/-- `ENRICHMENT_IN_CHUNK_SIZE`. -/
def enrichmentInChunkSize : Nat := 500

/-- `tx_status_to_action_status`. -/
def txStatusToActionStatus : TransactionStatus → ActionStatus
  | .completed => .completed
  | .unprocessed => .unprocessed
  | .sending => .sending
  | .unproven => .unproven
  | .unsigned => .unsigned
  | .nosend => .noSend
  | .nonfinal => .nonFinal
  | .failed | .unfail => .completed

/-! ## Reads -/

/-- The live links of some transactions. -/
def findTxLabelMaps (s : Store) (transactionIds : List Nat) : List TxLabelMap :=
  s.txLabelMaps.find fun m => transactionIds.contains m.transactionId && !m.isDeleted

/-- The user's live labels among some ids. -/
def findTxLabels (s : Store) (userId : Nat) (txLabelIds : List Nat) : List TxLabel :=
  s.txLabels.find fun l => txLabelIds.contains l.txLabelId && l.userId == userId && !l.isDeleted

/-- A row as a query reads it, which leaves the script out when it is asked to. -/
def Output.read (noScript : Bool) (o : Output) : Output :=
  if noScript then { o with lockingScript := none } else o

/-- The user's outputs of some transactions, ordered by their index. -/
def findOutputsOf (s : Store) (userId : Nat) (noScript : Bool) (transactionIds : List Nat) :
    List Output :=
  ((s.outputs.find fun o => o.userId == userId && transactionIds.contains o.transactionId).map
    (·.read noScript)).mergeSort fun a b => a.vout ≤ b.vout

/-- The user's outputs that some transactions spend. -/
def findOutputsSpentBy (s : Store) (userId : Nat) (noScript : Bool) (spentByIds : List Nat) :
    List Output :=
  (s.outputs.find fun o =>
    o.userId == userId && o.spentBy.any fun id => spentByIds.contains id).map (·.read noScript)

/-! ## Selection -/

/-- The ids of the user's live labels among the given ones. -/
def findLabelIds (s : Store) (userId : Nat) (labels : List String) : List Nat :=
  if labels.isEmpty then []
  else (s.txLabels.find fun l => l.userId == userId && !l.isDeleted && labels.contains l.label).map
    (·.txLabelId)

/-- The condition of the base query. -/
def isListed (userId : Nat) (t : Transaction) : Bool :=
  t.userId == userId && defaultStati.contains t.status

/-- Whether a transaction with the given links has the labels that are asked for. -/
def hasLabels (isQueryModeAll : Bool) (labelIds : List Nat) (maps : List TxLabelMap) : Bool :=
  let matchingCount := (maps.filter fun m => labelIds.contains m.txLabelId).length
  if isQueryModeAll then labelIds.length ≤ matchingCount else 0 < matchingCount

/-- The transactions of a page that have the labels. -/
def filterByLabels (s : Store) (isQueryModeAll : Bool) (labelIds : List Nat)
    (txs : List Transaction) : List Transaction :=
  if labelIds.isEmpty then txs
  else
    let maps := (chunks enrichmentInChunkSize (txs.map (·.transactionId))).flatMap (findTxLabelMaps s)
    let mapsByTransaction := Groups.collect (maps.map fun m => (m.transactionId, m))
    txs.filter fun t =>
      hasLabels isQueryModeAll labelIds (mapsByTransaction.getD t.transactionId [])

/-- `list_actions` up to the count: the filtered transactions of the page and the total. Where the
source returns early, no transaction is selected and the total is zero. -/
def selectTransactions (s : Store) (userId : Nat) (args : ListActionsArgs) :
    List Transaction × Nat :=
  let limit := (args.limit.getD 10).toNat
  let offset := (args.offset.getD 0).toNat
  let isQueryModeAll := args.labelQueryMode == some .all
  let labelIds := findLabelIds s userId args.labels
  if isQueryModeAll && labelIds.length < args.labels.length then ([], 0)
  else if !isQueryModeAll && labelIds.isEmpty && !args.labels.isEmpty then ([], 0)
  else
    let txs := ((s.transactions.find (isListed userId)).drop offset).take limit
    let filteredTxs := filterByLabels s isQueryModeAll labelIds txs
    let totalActions :=
      if filteredTxs.length < limit then (offset + filteredTxs.length) % 4294967296
      else (s.transactions.find (isListed userId)).length % 4294967296
    (filteredTxs, totalActions)

/-! ## Enrichment -/

/-- The rows of the selected transactions, by transaction. -/
structure Enrichment where
  labels : Groups Nat String
  outputs : Groups Nat Output
  inputs : Groups Nat Output

/-- `labels_by_transaction`. -/
def labelsByTransaction (s : Store) (userId : Nat) (transactionIds : List Nat) :
    Groups Nat String :=
  let labelMaps := (chunks enrichmentInChunkSize transactionIds).flatMap (findTxLabelMaps s)
  let referencedLabelIds := (labelMaps.map (·.txLabelId)).eraseDups
  let labelsById := indexBy (·.txLabelId) (·.label)
    ((chunks enrichmentInChunkSize referencedLabelIds).flatMap (findTxLabels s userId))
  Groups.collect (labelMaps.filterMap fun m =>
    labelsById[m.txLabelId]?.map fun label => (m.transactionId, label))

/-- `outputs_by_transaction`. -/
def outputsByTransaction (s : Store) (userId : Nat) (noScript : Bool) (transactionIds : List Nat) :
    Groups Nat Output :=
  Groups.collect (((chunks enrichmentInChunkSize transactionIds).flatMap
    (findOutputsOf s userId noScript)).map fun o => (o.transactionId, o))

/-- `inputs_by_transaction`. -/
def inputsByTransaction (s : Store) (userId : Nat) (noScript : Bool) (transactionIds : List Nat) :
    Groups Nat Output :=
  Groups.collect (((chunks enrichmentInChunkSize transactionIds).flatMap
    (findOutputsSpentBy s userId noScript)).filterMap fun o => o.spentBy.map fun id => (id, o))

/-- The four batched reads. -/
def enrichment (s : Store) (userId : Nat) (args : ListActionsArgs) (transactionIds : List Nat) :
    Enrichment where
  labels := if args.includeLabels then labelsByTransaction s userId transactionIds else ∅
  outputs :=
    if args.includeOutputs then
      outputsByTransaction s userId (!args.includeOutputLockingScripts) transactionIds
    else ∅
  inputs :=
    if args.includeInputs then
      inputsByTransaction s userId (!args.includeInputSourceLockingScripts) transactionIds
    else ∅

/-- A list, or nothing for the empty one. -/
def listed {α : Type} (xs : List α) : Option (List α) :=
  if xs.isEmpty then none else some xs

def Output.toActionOutput (includeLockingScripts : Bool) (o : Output) : ActionOutput :=
  { satoshis := asU64 o.satoshis
    lockingScript := if includeLockingScripts then o.lockingScript else none
    spendable := o.spendable
    -- The instructions are left out for security.
    customInstructions := none
    tags := []
    outputIndex := asU32 o.vout
    outputDescription := o.outputDescription.getD ""
    basket := none }

def Output.toActionInput (includeLockingScripts : Bool) (o : Output) : ActionInput :=
  { sourceOutpoint := o.txid.getD "" ++ "." ++ toString o.vout
    sourceSatoshis := asU64 o.satoshis
    sourceLockingScript := if includeLockingScripts then o.lockingScript else none
    unlockingScript := none
    inputDescription := o.outputDescription.getD ""
    sequenceNumber := asU32 (o.sequenceNumber.getD 0) }

/-- The action of a transaction with the rows that were read for it. -/
def toAction (args : ListActionsArgs) (t : Transaction) (labels : List String)
    (outputs inputs : List Output) : Action :=
  { txid := t.txid.getD ""
    satoshis := t.satoshis
    status := txStatusToActionStatus t.status
    isOutgoing := t.isOutgoing
    description := t.description
    labels := if args.includeLabels then listed labels else none
    version := asU32 (t.version.getD 0)
    lockTime := asU32 (t.lockTime.getD 0)
    inputs := if args.includeInputs then
        listed (inputs.map (·.toActionInput args.includeInputSourceLockingScripts))
      else none
    outputs := if args.includeOutputs then
        listed (outputs.map (·.toActionOutput args.includeOutputLockingScripts))
      else none }

/-- The loop over the selected transactions: each takes its rows out of the groups. -/
def assembleActions (args : ListActionsArgs) : Enrichment → List Transaction → List Action × Enrichment
  | e, [] => ([], e)
  | e, t :: txs =>
    let action := toAction args t (e.labels.getD t.transactionId [])
      (e.outputs.getD t.transactionId []) (e.inputs.getD t.transactionId [])
    let left : Enrichment :=
      { labels := e.labels.erase t.transactionId
        outputs := e.outputs.erase t.transactionId
        inputs := e.inputs.erase t.transactionId }
    let (actions, left) := assembleActions args left txs
    (action :: actions, left)

/-- A `debug_assert!`; its failure is a panic, which is an error here. -/
def debugAssert (holds : Bool) (condition : String) : Except WalletError Unit :=
  if holds then .ok () else .error (.internal ("assertion failed: " ++ condition))

/-- `list_actions`. -/
def listActions (s : Store) (userId : Nat) (args : ListActionsArgs) :
    Except WalletError ListActionsResult := do
  let (filteredTxs, totalActions) := selectTransactions s userId args
  let rows := enrichment s userId args (filteredTxs.map (·.transactionId))
  let (actions, left) := assembleActions args rows filteredTxs
  debugAssert left.labels.isEmpty "labels_by_transaction.is_empty()"
  debugAssert left.outputs.isEmpty "outputs_by_transaction.is_empty()"
  debugAssert left.inputs.isEmpty "inputs_by_transaction.is_empty()"
  return { totalActions, actions }

/-! ## The reference of the tests -/

/-- `find_tx_label_by_id`. -/
def findTxLabelById (s : Store) (id : Nat) : Except WalletError (Option TxLabel) :=
  verifyOneOrNone (s.txLabels.find fun l => l.txLabelId == id)

/-- The labels of one transaction, each read by its id. -/
def labelsOf (s : Store) : List TxLabelMap → Except WalletError (List String)
  | [] => .ok []
  | m :: maps => do
    let label ← findTxLabelById s m.txLabelId
    let labels ← labelsOf s maps
    match label with
    | some l => return if l.isDeleted then labels else l.label :: labels
    | none => return labels

/-- Entries pushed one by one to a list that the first one makes. -/
def pushed {α β : Type} (entry : α → β) (rows : List α) : Option (List β) :=
  rows.foldl (fun entries row => some (entries.getD [] ++ [entry row])) none

/-- The action of one transaction in `assemble_per_transaction_reference`. -/
def referenceAction (s : Store) (args : ListActionsArgs) (t : Transaction) :
    Except WalletError Action := do
  let maps := s.txLabelMaps.find fun m => m.transactionId == t.transactionId && !m.isDeleted
  let labels ← if args.includeLabels then labelsOf s maps else pure []
  let outputs := (s.outputs.find fun o => o.transactionId == t.transactionId).map
    (·.read (!args.includeOutputLockingScripts))
  let inputs := (s.outputs.find fun o => o.spentBy == some t.transactionId).map
    (·.read (!args.includeInputSourceLockingScripts))
  return {
    txid := t.txid.getD ""
    satoshis := t.satoshis
    status := txStatusToActionStatus t.status
    isOutgoing := t.isOutgoing
    description := t.description
    labels := if labels.isEmpty then none else some labels
    version := asU32 (t.version.getD 0)
    lockTime := asU32 (t.lockTime.getD 0)
    inputs := if args.includeInputs then inputs |> pushed fun input =>
        { sourceOutpoint := input.txid.getD "" ++ "." ++ toString input.vout
          sourceSatoshis := asU64 input.satoshis
          sourceLockingScript :=
            if args.includeInputSourceLockingScripts then input.lockingScript else none
          unlockingScript := none
          inputDescription := input.outputDescription.getD ""
          sequenceNumber := asU32 (input.sequenceNumber.getD 0) }
      else none
    outputs := if args.includeOutputs then outputs |> pushed fun output =>
        { satoshis := asU64 output.satoshis
          lockingScript := if args.includeOutputLockingScripts then output.lockingScript else none
          spendable := output.spendable
          customInstructions := none
          tags := []
          outputIndex := asU32 output.vout
          outputDescription := output.outputDescription.getD ""
          basket := none }
      else none }

/-- `assemble_per_transaction_reference`. -/
def assemblePerTransactionReference (s : Store) (transactions : List Transaction)
    (args : ListActionsArgs) : Except WalletError ListActionsResult := do
  let actions ← transactions.mapM (referenceAction s args)
  return { totalActions := transactions.length % 4294967296, actions }

end WalletToolbox.Storage
