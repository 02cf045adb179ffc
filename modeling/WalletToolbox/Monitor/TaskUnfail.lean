import WalletToolbox.Lib.Drain
import WalletToolbox.Services
import WalletToolbox.Storage.Provider

/-! # TaskUnFail

Reviews requests marked `unfail`: one with a proof is set back to `unmined` and its
transactions take their inputs back, one without returns to `invalid`.
Every statement commits on its own and its error is ignored.
A run pages through the marked requests by offset. -/

namespace WalletToolbox.Monitor

open WalletToolbox.Lib WalletToolbox.Storage

/-- The transactions that a request notifies. A negative id names no row and has no effect in
any of the statements below, so it is dropped. -/
def notifyIds (req : ProvenTxReq) : List Nat :=
  match req.notify with
  | none => []
  | some notify =>
    ((notify.get? "transactionIds").map Json.items |>.getD []).filterMap fun v =>
      match v.asInt? with
      | some n => if 0 ≤ n then some n.toNat else none
      | none => none

/-- `validate_output_script`: the locking script of an output, cut from the raw transaction when
the row does not hold all of it. -/
def validatedScript (d : Tables) (o : Output) : Option Bytes :=
  match o.scriptLength, o.scriptOffset, o.txid with
  | some len, some off, some txid =>
    if len ≤ 0 ∨ off < 0 ∨ txid.isEmpty then o.lockingScript
    else if o.lockingScript.any fun script => (script.length : Int) = len then o.lockingScript
    else
      match d.transactions.first (·.txid == some txid) with
      | some tx =>
        match tx.rawTx with
        | some rawTx =>
          if off.toNat + len.toNat ≤ rawTx.length then
            some ((rawTx.drop off.toNat).take len.toNat)
          else
            o.lockingScript
        | none => o.lockingScript
      | none => o.lockingScript
  | _, _, _ => o.lockingScript

/-- Whether an output belongs to the user of the transaction; a missing transaction restricts
nothing. -/
def ofUser (userId : Option Nat) (o : Output) : Bool :=
  userId.all (o.userId == ·)

/-- Claim the output of one input of the transaction, when exactly one row matches. -/
def reclaimInput (userId : Option Nat) (id : Nat) (input : TxInput) : StorageProg Unit := do
  match input.sourceTxid with
  | none => pure ()
  | some source =>
    let outputs ← find fun s => s.outputs.find fun o =>
      ofUser userId o && o.txid == some source && o.vout == input.sourceOutputIndex
    match outputs with
    | [o] =>
      ignore (exec (.updateOutput o.outputId { spendable := some false, spentBy := some id }))
    | _ => pure ()

/-- Set one output of the transaction to what the chain reports. -/
def reviewOutput (services : Services) (o : Output) : StorageProg Unit := do
  match ← find fun s => validatedScript s.toTables o with
  | none => pure ()
  | some script =>
    if script.isEmpty then
      pure ()
    else
      match services.isUtxo script (o.txid.getD "") o.vout with
      | .ok isUtxo =>
        if isUtxo != o.spendable then
          ignore (exec (.updateOutput o.outputId { spendable := some isUtxo }))
        else
          pure ()
      | .error _ => pure ()

/-- Bring one transaction of a proven request back. -/
def unfailTransaction (sdk : Sdk) (services : Services) (rawTx : Bytes) (id : Nat) :
    StorageProg Unit := do
  ignore (exec (.updateTransaction id { status := some .unproven }))
  let record ← find fun s => s.transactions.first (·.transactionId == id)
  let userId := record.map (·.userId)
  if rawTx.isEmpty then
    pure ()
  else
    match sdk.parseTx rawTx with
    | .error _ => pure ()
    | .ok parsed =>
      forM parsed.inputs (reclaimInput userId id)
      let outputs ← find fun s => s.outputs.find fun o => ofUser userId o && o.transactionId == id
      forM outputs (reviewOutput services)

/-- One request of `TaskUnFail::unfail`. -/
def unfailReq (sdk : Sdk) (services : Services) (req : ProvenTxReq) : StorageProg Unit := do
  if (services.getMerklePath req.txid).merklePath.isSome then
    ignore (exec (.updateProvenTxReq req.provenTxReqId { status := some .unmined }))
    forM (notifyIds req) (unfailTransaction sdk services req.rawTx)
  else
    ignore (exec (.updateProvenTxReq req.provenTxReqId { status := some .invalid }))

/-- `TaskUnFail::unfail` over the requests that the task read. -/
def unfail (sdk : Sdk) (services : Services) (reqs : List ProvenTxReq) : StorageProg Unit :=
  forM reqs (unfailReq sdk services)

/-- The requests that the query selects, in the order of their ids. -/
def unfailing (d : Tables) : List ProvenTxReq :=
  d.provenTxReqs.find (·.status == .unfail)

/-- `run_task`. It answers with the requests that it looked up, which the log lists.
The loop reads at most one page more than there are rows. -/
def runUnfail (sdk : Sdk) (services : Services) : StorageProg (List ProvenTxReq) := do
  let rows ← find fun s => s.provenTxReqs.rows.length
  Prog.sweep 100 (fun s => unfailing s.toTables) (unfail sdk services) (rows + 1) 0

end WalletToolbox.Monitor
