import WalletToolbox.Sdk
import WalletToolbox.Storage.Provider

/-! # abortAction

Cancels an outgoing action that was not shared with the network: releases its inputs, retires
its outputs, fails its transaction and invalidates its request.
All of it is one database transaction. -/

namespace WalletToolbox.Storage

open WalletToolbox.Lib

/-- The camel case text stored for a request status. -/
def ProvenTxReqStatus.toString : ProvenTxReqStatus → String
  | .sending => "sending"
  | .unsent => "unsent"
  | .nosend => "nosend"
  | .unknown => "unknown"
  | .nonfinal => "nonfinal"
  | .unprocessed => "unprocessed"
  | .unmined => "unmined"
  | .callback => "callback"
  | .unconfirmed => "unconfirmed"
  | .completed => "completed"
  | .invalid => "invalid"
  | .doubleSpend => "doubleSpend"
  | .unfail => "unfail"

/-- The statuses of an action that can no longer be aborted. -/
def unAbortable (status : TransactionStatus) : Bool :=
  status == .completed || status == .failed || status == .sending || status == .unproven

/-- The txid that a caller may have sent in the place of a reference. -/
def txidFallback (reference : Bytes) : Option String :=
  let text := base64Encode reference
  if text.length = 64 then some text
  else if reference.length = 64 then utf8? reference
  else none

/-- The action that a reference names: by reference, else by txid. -/
def findAbortTarget (userId : Nat) (reference : Bytes) : StorageProg (Option Transaction) := do
  let text := base64Encode reference
  match ← find fun s => s.transactions.first fun t => t.userId == userId && t.reference == text with
  | some tx => pure (some tx)
  | none =>
    match txidFallback reference with
    | none => pure none
    | some txid =>
      find fun s => s.transactions.first fun t => t.userId == userId && t.txid == some txid

/-- The user's output rows for the outpoints that a transaction spends. -/
def rowsOfInputs (userId : Nat) (inputs : List TxInput) (s : Store) : List Output :=
  inputs.flatMap fun i =>
    match i.sourceTxid with
    | none => []
    | some source => s.outputs.find fun o =>
        o.userId == userId && o.txid == some source && o.vout == i.sourceOutputIndex

/-- The ids of the rows to release: the claimed ones, then those that the raw transaction
spends and that are not listed yet. -/
def abortInputs (sdk : Sdk) (userId : Nat) (tx : Transaction) : StorageProg (List Nat) := do
  let claimed ← find fun s => s.outputs.find fun o =>
    o.userId == userId && o.spentBy == some tx.transactionId
  match tx.rawTx with
  | none => pure (claimed.map (·.outputId))
  | some rawTx =>
    match sdk.parseTx rawTx with
    | .error e =>
      .fail (.internal s!"abort_action: transaction {tx.transactionId} has invalid rawTx: {e}")
    | .ok parsed =>
      let spent ← find (rowsOfInputs userId parsed.inputs)
      pure ((claimed ++ spent).map (·.outputId)).eraseDups

/-- The history of a request with the notes of an abort added. A history that does not parse
counts as empty. -/
def abortHistory (req : ProvenTxReq) (reference stamp : String) : Except WalletError Json :=
  match req.history.getD (.obj []) with
  | .obj fields =>
    let name := "notes"
    let old := (fields.find? fun f => f.1 == name).elim (.arr []) (·.2)
    match old with
    | .arr notes =>
      let abortNote := Json.obj
        [("what", .str "abortAction"), ("reference", .str reference), ("when", .str stamp)]
      let statusNote := Json.obj
        [("what", .str "status"), ("status_was", .str req.status.toString),
          ("status_now", .str ProvenTxReqStatus.invalid.toString), ("when", .str stamp)]
      let notes := notes ++ [abortNote] ++ if req.status = .invalid then [] else [statusNote]
      .ok (.obj (fields.filter (fun f => f.1 != name) ++ [(name, .arr notes)]))
    | _ =>
      .error (.internal
        s!"abort_action: proven request {req.provenTxReqId} history notes is not an array")
  | _ =>
    .error (.internal s!"abort_action: proven request {req.provenTxReqId} history is not an object")

/-- Invalidate the request of an aborted transaction that has a txid. -/
def abortRequest (txid : Option String) (reference stamp : String) : StorageProg Unit := do
  match txid with
  | none => pure ()
  | some txid =>
    match ← find fun s => s.provenTxReqs.first (·.txid == txid) with
    | none => pure ()
    | some req =>
      let history ← Prog.ofExcept (abortHistory req reference stamp)
      exec' (.updateProvenTxReq req.provenTxReqId
        { status := some .invalid, history := some history })

/-- Take the outputs of a failed transaction out of use. -/
def retireOutputs (userId transactionId : Nat) : StorageProg Unit := do
  let created ← find fun s => s.outputs.find fun o =>
    o.userId == userId && o.transactionId == transactionId
  forM created fun o =>
    if o.spendable || o.spentBy.isSome then
      exec' (.updateOutput o.outputId { spendable := some false, spentBy := some 0 })
    else
      pure ()

/-- The body of `abort_action`. `stamp` is the text of the current time. -/
def abortActionBody (sdk : Sdk) (auth : String) (reference : Bytes) (stamp : String) :
    StorageProg Unit := do
  match ← findUserByIdentityKey auth with
  | none => .fail (.unauthorized "User not found")
  | some user =>
    match ← findAbortTarget user.userId reference with
    | none => .fail (.invalidParameter "reference" "an existing action reference")
    | some tx =>
      if !tx.isOutgoing || unAbortable tx.status then
        .fail (.invalidParameter "reference"
          "an inprocess, outgoing action that has not been signed and shared to the network")
      else
        let inputs ← abortInputs sdk user.userId tx
        let _ ← releaseInputsSpentBy inputs tx.transactionId
        retireOutputs user.userId tx.transactionId
        exec' (.updateTransaction tx.transactionId { status := some .failed })
        abortRequest tx.txid ((txidFallback reference).getD (base64Encode reference)) stamp

/-- `abort_action` of the storage provider: the body between begin and commit. -/
def abortAction (sdk : Sdk) (auth : String) (reference : Bytes) (stamp : String) :
    StorageProg Unit :=
  Prog.atomically (abortActionBody sdk auth reference stamp)

end WalletToolbox.Storage
