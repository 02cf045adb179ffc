import WalletToolbox.Services
import WalletToolbox.Storage.Provider

/-! # Broadcasting and proof collection by the monitor

`attempt_to_post_reqs_to_network` and `get_proofs` work through a list of requests that a task
read earlier.
Every statement commits on its own and its error is logged only.
The logs are left out.
The source BEEFs come from a storage reader that issues no statement; it is a parameter. -/

namespace WalletToolbox.Monitor

open WalletToolbox.Lib WalletToolbox.Storage

/-- `get_valid_beef_for_txid` of the active store. -/
abbrev SourceBeefs := Store → String → Except String (Option Bytes)

/-- The outcome of rebuilding the BEEF of a request. -/
inductive RebuiltBeef where
  | invalid
  | missingSource
  | ready (bytes : Bytes)

/-- Merge the source BEEF of one input; the flag tells whether a source is missing. -/
def mergeSource (sdk : Sdk) (sources : SourceBeefs) (s : Store) (acc : Beef × Bool) (input : TxInput) :
    Beef × Bool :=
  match input.sourceTxid with
  | none => acc
  | some source =>
    if source.isEmpty || (acc.1.findTxid source).isSome then acc
    else
      match sources s source with
      | .ok (some bytes) =>
        if bytes.isEmpty then (acc.1, true)
        else
          match sdk.mergeBeef acc.1 bytes with
          | .ok beef => (beef, acc.2)
          | .error _ => (acc.1, true)
      | .ok none | .error _ => (acc.1, true)

/-- Rebuild the broadcast BEEF from the request and storage. The stored input BEEF is only a
hint. -/
def rebuildBeef (sdk : Sdk) (sources : SourceBeefs) (s : Store) (req : ProvenTxReq) :
    RebuiltBeef :=
  let start :=
    match req.inputBeef with
    | some bytes =>
      if bytes.isEmpty then Beef.empty
      else
        match sdk.mergeBeef Beef.empty bytes with
        | .ok beef => beef
        | .error _ => Beef.empty
    | none => Beef.empty
  match sdk.mergeRawTx start req.rawTx with
  | .error _ => .invalid
  | .ok beef =>
    match sdk.parseTx req.rawTx with
    | .error _ => .invalid
    | .ok parsed =>
      let (beef, missing) := parsed.inputs.foldl (mergeSource sdk sources s) (beef, false)
      if missing then .missingSource
      else
        match sdk.beefBytes (sdk.sortTxs beef) with
        | .error _ => .invalid
        | .ok bytes => .ready bytes

inductive PostReqStatus where
  | success | doubleSpend | invalid | serviceError | orphan | unknown
deriving DecidableEq

structure PostReqDetail where
  txid : String
  reqId : Nat
  status : PostReqStatus
  cascadeUpdateFailed : Bool
deriving DecidableEq

/-- The answers that concern the posted txid, counted by kind. -/
structure Counts where
  success : Nat := 0
  doubleSpend : Nat := 0
  orphan : Nat := 0
  statusError : Nat := 0
  serviceError : Nat := 0

def Counts.add (c : Counts) (r : PostTxResultForTxid) : Counts :=
  if r.status == "success" then { c with success := c.success + 1 }
  else if r.doubleSpend.getD false then { c with doubleSpend := c.doubleSpend + 1 }
  else if r.orphanMempool.getD false then { c with orphan := c.orphan + 1 }
  else if r.serviceError.getD false then { c with serviceError := c.serviceError + 1 }
  else { c with statusError := c.statusError + 1 }

def countResults (txid : String) (results : List PostBeefResult) : Counts :=
  ((results.flatMap (·.txidResults)).filter (·.txid == txid)).foldl Counts.add {}

/-- The verdict that the monitor reads off the providers' answers. -/
def verdict (c : Counts) : ProvenTxReqStatus × PostReqStatus :=
  if c.success > 0 ∧ c.doubleSpend = 0 then (.unmined, .success)
  else if c.doubleSpend > 0 then (.doubleSpend, .doubleSpend)
  else if c.orphan > 0 then (.sending, .orphan)
  else if c.statusError > 0 then (.invalid, .invalid)
  else (.sending, .serviceError)

/-- The transaction status that goes with a request status after a broadcast. -/
def cascadeStatus : ProvenTxReqStatus → Option TransactionStatus
  | .unmined => some .unproven
  | .doubleSpend => some .failed
  | .invalid => some .failed
  | .sending => some .sending
  | _ => none

/-- Whether the chain reports an output as unspent; a row without script or txid is not asked
about. -/
def reportedUnspent (services : Services) (o : Output) : Bool :=
  match o.lockingScript, o.txid with
  | some script, some txid =>
    match services.isUtxo script txid o.vout with
    | .ok isUtxo => isUtxo
    | .error _ => false
  | _, _ => false

/-- `restore_unspent_inputs_only`: release the inputs that the chain still reports as unspent. -/
def restoreUnspentInputsOnly (services : Services) (txId : Nat) : StorageProg Unit := do
  let outputs ← find fun s => s.outputs.find (·.spentBy == some txId)
  forM outputs fun o =>
    if reportedUnspent services o then
      ignore (exec (.updateOutput o.outputId { spendable := some true, spentBy := some 0 }))
    else
      pure ()

/-- Release the inputs of a transaction that the broadcast failed. -/
def restoreInputs (services : Services) (txid : String) (reqStatus : ProvenTxReqStatus) :
    StorageProg Unit := do
  match ← find fun s => s.transactions.first (·.txid == some txid) with
  | none => pure ()
  | some tx =>
    if reqStatus = .doubleSpend then
      restoreUnspentInputsOnly services tx.transactionId
    else
      ignore (restoreConsumedInputs tx.transactionId)

/-- Write a verdict: the request, then the transaction with the txid, then the inputs. The
answer tells whether the transaction row could not be updated. -/
def applyVerdict (services : Services) (req : ProvenTxReq) (reqStatus : ProvenTxReqStatus)
    (postStatus : PostReqStatus) : StorageProg Bool := do
  let attempts := if postStatus = .serviceError then some (req.attempts + 1) else none
  ignore (exec (.updateProvenTxReq req.provenTxReqId { status := some reqStatus, attempts }))
  match cascadeStatus reqStatus with
  | none => pure false
  | some txStatus =>
    match ← (updateTransactionStatus req.txid txStatus).attempt with
    | .error _ => pure true
    | .ok () =>
      if txStatus = .failed then
        restoreInputs services req.txid reqStatus
      pure false

/-- Give up a request that cannot be broadcast: only the request is marked. -/
def markInvalid (req : ProvenTxReq) : StorageProg (Option PostReqDetail) := do
  ignore (exec (.updateProvenTxReq req.provenTxReqId { status := some .invalid }))
  pure (some { txid := req.txid, reqId := req.provenTxReqId, status := .invalid
               cascadeUpdateFailed := false })

/-- One request of `attempt_to_post_reqs_to_network`; `none` when it is skipped. -/
def attemptToPostReq (sdk : Sdk) (sources : SourceBeefs) (services : Services)
    (req : ProvenTxReq) : StorageProg (Option PostReqDetail) := do
  if req.status = .completed ∨ req.status = .unmined then
    pure none
  else if req.rawTx.isEmpty then
    markInvalid req
  else
    match ← find fun s => rebuildBeef sdk sources s req with
    | .invalid => markInvalid req
    | .missingSource =>
      pure (some { txid := req.txid, reqId := req.provenTxReqId, status := .unknown
                   cascadeUpdateFailed := false })
    | .ready bytes =>
      let v := verdict (countResults req.txid (services.postBeef bytes [req.txid]))
      let failed ← applyVerdict services req v.1 v.2
      pure (some { txid := req.txid, reqId := req.provenTxReqId, status := v.2
                   cascadeUpdateFailed := failed })

/-- `attempt_to_post_reqs_to_network`. -/
def attemptToPostReqsToNetwork (sdk : Sdk) (sources : SourceBeefs) (services : Services)
    (reqs : List ProvenTxReq) : StorageProg (List PostReqDetail) :=
  reqs.foldlM (fun details req => do
    let detail ← attemptToPostReq sdk sources services req
    pure (details ++ detail.toList)) []

/-! ## Proof collection -/

/-- `proof_timeout_action`: whether a request past its attempts is broadcast again. -/
def rebroadcasts (status : ProvenTxReqStatus) : Bool :=
  status == .unmined || status == .callback || status == .unconfirmed || status == .completed

/-- The arguments of `get_proofs` besides the requests. -/
structure ProofParams where
  unprovenAttemptsLimit : UInt32
  countsAsAttempt : Bool
  maxAcceptableHeight : Option Nat

/-- `unproven_attempts_limit as i32`, negative from 2^31 on. -/
def ProofParams.attemptsLimit (params : ProofParams) : Int :=
  params.unprovenAttemptsLimit.toInt32.toInt

inductive ProofResult where
  | proven | invalid | pending
deriving DecidableEq

/-- A request whose attempts are used up. -/
def applyProofTimeout (req : ProvenTxReq) : StorageProg ProofResult := do
  if rebroadcasts req.status then
    ignore (exec (.updateProvenTxReq req.provenTxReqId
      { status := some .unsent, attempts := some 0, notified := some false }))
    pure .pending
  else
    ignore (exec (.updateProvenTxReq req.provenTxReqId
      { status := some .invalid, notified := some false }))
    pure .invalid

/-- Store a proof that the services found. -/
def saveProof (req : ProvenTxReq) (merklePath : Bytes) (header : BlockHeader) :
    StorageProg ProofResult := do
  let now ← utcNow
  let provenTx : ProvenTx :=
    { createdAt := now, updatedAt := now, txid := req.txid, height := header.height, index := 0
      merklePath, rawTx := req.rawTx, blockHash := header.hash, merkleRoot := header.merkleRoot }
  match ← (updateProvenTxReqWithNewProvenTx req.provenTxReqId provenTx).attempt with
  | .ok _ => pure .proven
  | .error _ => pure .pending

/-- One request of `get_proofs`. -/
def getProof (services : Services) (params : ProofParams) (req : ProvenTxReq) :
    StorageProg ProofResult := do
  if req.provenTxId.any (0 < ·) then
    ignore (exec (.updateProvenTxReq req.provenTxReqId
      { status := some .completed, notified := some false }))
    pure .proven
  else if req.attempts > params.attemptsLimit then
    applyProofTimeout req
  else
    let answer := services.getMerklePath req.txid
    match answer.merklePath, answer.header with
    | some merklePath, some header =>
      if params.maxAcceptableHeight.any (· < header.height) then
        pure .pending
      else
        saveProof req merklePath header
    | _, _ =>
      if params.countsAsAttempt && req.status != .nosend then
        ignore (exec (.updateProvenTxReq req.provenTxReqId
          { attempts := some (req.attempts + 1) }))
        pure .pending
      else
        pure .pending

structure GetProofsResult where
  proven : List ProvenTxReq := []
  invalid : List ProvenTxReq := []

/-- `get_proofs`. -/
def getProofs (services : Services) (params : ProofParams) (reqs : List ProvenTxReq) :
    StorageProg GetProofsResult :=
  reqs.foldlM (fun result req => do
    match ← getProof services params req with
    | .proven => pure { result with proven := result.proven ++ [req] }
    | .invalid => pure { result with invalid := result.invalid ++ [req] }
    | .pending => pure result) {}

end WalletToolbox.Monitor
