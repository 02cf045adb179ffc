import WalletToolbox.Sdk
import WalletToolbox.Storage.Provider

/-! # internalizeAction

Takes outputs of an external transaction into the wallet.
The AtomicBEEF is verified first; what the store holds about its subject is read before the
database transaction begins.
The network's chain tracker is a parameter, as is the SDK. -/

namespace WalletToolbox.Storage

open WalletToolbox.Lib

/-- How a caller wants one output taken over. Keys and derivation parameters are raw bytes. -/
inductive InternalizeOutput where
  | walletPayment (outputIndex : Nat) (senderIdentityKey : String)
      (derivationPrefix derivationSuffix : Bytes)
  | basketInsertion (outputIndex : Nat) (basket : String) (customInstructions : Option String)
      (tags : List String)

/-- `output_index_of`. -/
def InternalizeOutput.index : InternalizeOutput → Nat
  | .walletPayment i _ _ _ => i
  | .basketInsertion i _ _ _ => i

structure StorageInternalizeActionArgs where
  tx : Bytes
  description : String
  labels : List String
  outputs : List InternalizeOutput

structure StorageInternalizeActionResult where
  accepted : Bool
  isMerge : Bool
  txid : String
  satoshis : Int

/-! ## Verification of the AtomicBEEF -/

/-- A rejected AtomicBEEF. -/
def invalidBeef {α : Type} (why : String) : Except WalletError α :=
  .error (.invalidParameter "tx" s!"a valid AtomicBEEF: {why}")

/-- (0) No txid appears twice. -/
def checkDistinct (seen : List String) : List BeefTx → Except WalletError Unit
  | [] => .ok ()
  | btx :: rest =>
    if seen.contains btx.txid then invalidBeef s!"transaction {btx.txid} appears more than once"
    else checkDistinct (btx.txid :: seen) rest

/-- The merkle roots collected per block height. -/
abbrev Roots := List (Nat × String)

/-- (2) One flagged leaf of a bump: its txid is proven and its root must agree with the others of
the height. -/
def addLeaf (sdk : Sdk) (bumpIdx : Nat) (bump : MerklePath) (acc : List String × Roots)
    (leaf : MerkleLeaf) : Except WalletError (List String × Roots) :=
  match leaf.hash with
  | none => .ok acc
  | some hash =>
    if !leaf.txid || hash.isEmpty then .ok acc
    else
      match sdk.computeRoot bump (some hash) with
      | .error e => .error (.internal (s!"Failed to compute merkle root of bump {bumpIdx} " ++
          s!"(height {bump.blockHeight}) for txid {hash}: {e}"))
      | .ok root =>
        match acc.2.find? (·.1 == bump.blockHeight) with
        | some (_, other) =>
          if other != root then
            invalidBeef (s!"bumps disagree on the merkle root for height {bump.blockHeight}: " ++
              s!"{other} vs {root} (txid {hash})")
          else .ok (hash :: acc.1, acc.2)
        | none => .ok (hash :: acc.1, acc.2 ++ [(bump.blockHeight, root)])

def collectLeaves (sdk : Sdk) (bumps : List MerklePath) :
    Except WalletError (List String × Roots) :=
  bumps.zipIdx.foldlM (fun acc (bump, idx) =>
    (bump.path.headD []).foldlM (addLeaf sdk idx bump) acc) ([], [])

/-- (3) A transaction that names a bump is one of its leaves. -/
def checkClaimsBump (ab : Beef) (valid : List String) (btx : BeefTx) :
    Except WalletError (List String) :=
  match btx.bumpIndex with
  | none => .ok valid
  | some idx =>
    match ab.bumps[idx]? with
    | none => invalidBeef (s!"transaction {btx.txid} names bump index {idx}, " ++
        s!"but the BEEF carries only {ab.bumps.length} bumps")
    | some bump =>
      if (bump.path.headD []).any (·.hash == some btx.txid) then .ok (btx.txid :: valid)
      else invalidBeef (s!"transaction {btx.txid} names bump index {idx} " ++
        s!"(height {bump.blockHeight}) but is not one of its leaves")

/-- (4) One pass over the unproven transactions. -/
def validPass (txs : List BeefTx) (valid : List String) : List String :=
  txs.foldl (fun valid btx =>
    if valid.contains btx.txid then valid
    else if btx.inputTxids.all valid.contains then btx.txid :: valid
    else valid) valid

/-- (4) Passes until none of them makes progress; each makes one more transaction valid, so as
many passes as there are transactions reach the fixpoint. -/
def validFixpoint (txs : List BeefTx) (valid : List String) : List String :=
  (List.range txs.length).foldl (fun valid _ => validPass txs valid) valid

/-- (5) The chain tracker confirms every collected root. -/
def checkRoots (tracker : ChainTracker) : Roots → Except WalletError Unit
  | [] => .ok ()
  | (height, root) :: rest =>
    match tracker root height with
    | .error e =>
      .error (.internal s!"Chain tracker error verifying root {root} at height {height}: {e}")
    | .ok false => invalidBeef s!"chain tracker rejects merkle root {root} for height {height}"
    | .ok true => checkRoots tracker rest

/-- `verify_atomic_beef`. -/
def verifyAtomicBeef (sdk : Sdk) (tracker : ChainTracker) (ab : Beef) :
    Except WalletError Unit := do
  checkDistinct [] ab.txs
  match ab.txs.find? (·.isTxidOnly) with
  | some btx =>
    invalidBeef s!"transaction {btx.txid} is txid-only (internalize requires full transactions)"
  | none =>
    let (proven, roots) ← collectLeaves sdk ab.bumps
    let claimed ← ab.txs.foldlM (checkClaimsBump ab) proven
    let valid := validFixpoint ab.txs claimed
    match ab.txs.find? fun btx => !valid.contains btx.txid with
    | some btx =>
      let missing := ", ".intercalate (btx.inputTxids.filter fun i => !valid.contains i)
      invalidBeef (s!"transaction {btx.txid} does not chain to a proven ancestor " ++
        s!"(unresolved inputs: {missing})")
    | none => checkRoots tracker roots

/-! ## Checks before any write -/

/-- The subject transaction of a verified AtomicBEEF. -/
structure Subject where
  txid : String
  beefTx : BeefTx
  tx : Tx

def findSubject (ab : Beef) : Except WalletError Subject :=
  match ab.atomicTxid.filter (!·.isEmpty) with
  | none => .error (.invalidParameter "tx" "a valid AtomicBEEF with an identified atomic txid")
  | some txid =>
    match ab.txs.find? (·.txid == txid) with
    | none => .error (.invalidParameter "tx" s!"valid AtomicBEEF containing transaction {txid}")
    | some beefTx =>
      match beefTx.tx with
      | none => .error (.internal s!"BEEF transaction {txid} has no raw tx data")
      | some tx => .ok { txid, beefTx, tx }

/-- Every requested output exists and is named once. -/
def checkOutputs (numOutputs : Nat) (seen : List Nat) :
    List InternalizeOutput → Except WalletError Unit
  | [] => .ok ()
  | spec :: rest =>
    if numOutputs ≤ spec.index then
      .error (.invalidParameter "outputIndex"
        s!"a valid output index in range 0 to {numOutputs - 1}")
    else if seen.contains spec.index then
      .error (.invalidParameter "outputs" "unique outputIndex values")
    else
      checkOutputs numOutputs (spec.index :: seen) rest

/-- A transaction the user already holds can be merged with only in these statuses. -/
def checkMergeable (existing : Option Transaction) : Except WalletError Unit :=
  match existing with
  | none => .ok ()
  | some etx =>
    if etx.status != .completed && etx.status != .unproven && etx.status != .nosend then
      .error (.invalidParameter "tx"
        s!"target transaction of internalizeAction has valid status, got {etx.status.toString}")
    else
      .ok ()

/-- What the call has established before it begins the database transaction. -/
structure Internalizing where
  userId : Nat
  args : StorageInternalizeActionArgs
  beef : Beef
  subject : Subject
  existing : Option Transaction
  defaultBasket : OutputBasket
  satoshis : Int

namespace Internalizing

variable (c : Internalizing)

def isMerge : Bool := c.existing.isSome

/-- Whether the BEEF proves its subject. -/
def hasProof : Bool := c.subject.beefTx.hasProof

def txStatus : TransactionStatus :=
  if c.hasProof then .completed else .unproven

end Internalizing

/-- The user's output row for an outpoint of the subject. -/
def findOwnOutput (userId : Nat) (txid : String) (vout : Nat) : StorageProg (Option Output) := do
  let rows ← find fun s => s.outputs.find fun o =>
    o.userId == userId && o.txid == some txid && o.vout == vout
  Prog.ofExcept (verifyOneOrNone rows)

def TxOutput.amount (o : TxOutput) : Int :=
  asI64 (o.satoshis.getD 0)

def outputAt (tx : Tx) (index : Nat) : TxOutput :=
  tx.outputs.getD index { satoshis := none, lockingScript := [] }

/-- Add what one specification changes of the user's balance. -/
def addNetSatoshis (userId : Nat) (subject : Subject) (isMerge : Bool) (defaultBasketId : Nat)
    (satoshis : Int) (spec : InternalizeOutput) : StorageProg Int := do
  let amount := TxOutput.amount (outputAt subject.tx spec.index)
  match spec with
  | .walletPayment i _ _ _ =>
    if isMerge then
      match ← findOwnOutput userId subject.txid i with
      | some o =>
        if o.basketId == some defaultBasketId then pure satoshis
        else pure (asI64 (satoshis + amount))
      | none => pure (asI64 (satoshis + amount))
    else
      pure (asI64 (satoshis + amount))
  | .basketInsertion i _ _ _ =>
    if isMerge then
      match ← findOwnOutput userId subject.txid i with
      | some o =>
        if o.basketId == some defaultBasketId then pure (asI64 (satoshis - amount))
        else pure satoshis
      | none => pure satoshis
    else
      pure satoshis

/-! ## The database transaction -/

/-- The proof row of a transaction under a bump, as both places below build it. -/
def provenRow (now : Nat) (txid : String) (bump : MerklePath) (merklePath rawTx : Bytes)
    (merkleRoot : String) : ProvenTx :=
  { createdAt := now, updatedAt := now, txid, height := bump.blockHeight, index := 0, merklePath
    rawTx, blockHash := "", merkleRoot }

/-- Store the proof of one transaction of the BEEF, unless there is one. Its failure is
ignored. -/
def storeAncestor (sdk : Sdk) (ab : Beef) (btx : BeefTx) : StorageProg Unit := do
  match btx.bumpIndex.bind (ab.bumps[·]?), btx.tx with
  | some bump, some tx =>
    let merkleRoot := (sdk.computeRoot bump (some btx.txid)).toOption.getD ""
    let rawTx := (sdk.txBytes tx).toOption.getD []
    let merklePath := (sdk.bumpBytes bump).toOption.getD []
    let rows ← find fun s => s.provenTxs.find (·.txid == btx.txid)
    let existing ← Prog.ofExcept (verifyOneOrNone rows)
    if existing.isNone && !rawTx.isEmpty && !merklePath.isEmpty then
      let now ← utcNow
      ignore (exec (.insertProvenTx
        (provenRow now btx.txid bump merklePath rawTx merkleRoot)))
    else
      pure ()
  | _, _ => pure ()

/-- The proof row of the subject, when the BEEF proves it. -/
def subjectProof (sdk : Sdk) (c : Internalizing) : StorageProg (Option Nat) := do
  match c.subject.beefTx.bumpIndex.bind (c.beef.bumps[·]?) with
  | none => pure none
  | some bump =>
    match sdk.computeRoot bump (some c.subject.txid), sdk.bumpBytes bump with
    | .error e, _ => .fail (.internal s!"Failed to compute merkle root: {e}")
    | _, .error e => .fail (.internal s!"Failed to serialize merkle path: {e}")
    | .ok merkleRoot, .ok merklePath =>
      let rows ← find fun s => s.provenTxs.find (·.txid == c.subject.txid)
      match ← Prog.ofExcept (verifyOneOrNone rows) with
      | some ep => pure (some ep.provenTxId)
      | none =>
        let now ← utcNow
        let rawTx := (sdk.txBytes c.subject.tx).toOption.getD []
        let id ← exec (.insertProvenTx
          (provenRow now c.subject.txid bump merklePath rawTx merkleRoot))
        pure (some id)

/-- The proof id of the subject; none when the BEEF does not prove it. -/
def subjectProvenTxId (sdk : Sdk) (c : Internalizing) : StorageProg (Option Nat) :=
  if c.hasProof then subjectProof sdk c else pure none

/-- The row of a subject that the user does not hold yet. -/
def subjectRow (sdk : Sdk) (c : Internalizing) (provenTxId : Option Nat) (now : Nat) :
    Transaction :=
  { createdAt := now, updatedAt := now, userId := c.userId, provenTxId, status := c.txStatus
    reference := s!"int_{(c.subject.txid.take 16).toString}", isOutgoing := false
    satoshis := c.satoshis, description := c.args.description
    version := some c.subject.tx.version, lockTime := some c.subject.tx.lockTime
    txid := some c.subject.txid
    inputBeef := (sdk.beefBytes c.beef).toOption.filter (!·.isEmpty)
    rawTx := some ((sdk.txBytes c.subject.tx).toOption.getD []) }

/-- The transaction row of the subject. A row that the user already holds gets the status of the
BEEF at hand when the balance changes, and nothing else. -/
def subjectTransaction (sdk : Sdk) (c : Internalizing) (provenTxId : Option Nat) :
    StorageProg Nat := do
  match c.existing with
  | some etx =>
    if c.satoshis ≠ 0 then
      exec' (.updateTransaction etx.transactionId { status := some c.txStatus })
    pure etx.transactionId
  | none =>
    let now ← utcNow
    exec (.insertTransaction (subjectRow sdk c provenTxId now))

def addLabel (userId transactionId : Nat) (label : String) : StorageProg Unit := do
  let txLabel ← findOrInsertTxLabel userId label
  let now ← utcNow
  ignore (exec (.insertTxLabelMap
    { createdAt := now, updatedAt := now, txLabelId := txLabel.txLabelId, transactionId
      isDeleted := false }))

/-- `store_new_wallet_payment`. -/
def storeNewWalletPayment (c : Internalizing) (transactionId vout : Nat) (txo : TxOutput)
    (sender derivationPrefix derivationSuffix : String) : StorageProg Unit := do
  let now ← utcNow
  exec' (.insertOutput
    { createdAt := now, updatedAt := now, userId := c.userId, transactionId
      basketId := some c.defaultBasket.basketId, spendable := true, change := true
      outputDescription := some "", vout, satoshis := TxOutput.amount txo
      providedBy := .storage, purpose := "change", outputType := "P2PKH"
      txid := some c.subject.txid, senderIdentityKey := some sender
      derivationPrefix := some derivationPrefix, derivationSuffix := some derivationSuffix
      customInstructions := none, spentBy := none, sequenceNumber := none
      spendingDescription := none, scriptLength := none, scriptOffset := none
      lockingScript := some txo.lockingScript })

/-- `store_new_basket_insertion`. -/
def storeNewBasketInsertion (c : Internalizing) (transactionId vout : Nat) (txo : TxOutput)
    (basketId : Nat) (customInstructions : Option String) : StorageProg Unit := do
  let now ← utcNow
  exec' (.insertOutput
    { createdAt := now, updatedAt := now, userId := c.userId, transactionId
      basketId := some basketId, spendable := true, change := false
      outputDescription := some "", vout, satoshis := TxOutput.amount txo
      providedBy := .you, purpose := "", outputType := "custom"
      txid := some c.subject.txid, senderIdentityKey := none
      derivationPrefix := none, derivationSuffix := none
      customInstructions, spentBy := none, sequenceNumber := none
      spendingDescription := none, scriptLength := none, scriptOffset := none
      lockingScript := some txo.lockingScript })

/-- Tag the output at an index of the transaction. -/
def addTag (userId transactionId vout : Nat) (tag : String) : StorageProg Unit := do
  let outputTag ← findOrInsertOutputTag userId tag
  let rows ← find fun s => s.outputs.find fun o =>
    o.userId == userId && o.transactionId == transactionId && o.vout == vout
  match ← Prog.ofExcept (verifyOneOrNone rows) with
  | none => pure ()
  | some o =>
    let now ← utcNow
    ignore (exec (.insertOutputTagMap
      { createdAt := now, updatedAt := now, outputTagId := outputTag.outputTagId
        outputId := o.outputId, isDeleted := false }))

/-- The row to merge with: none unless the user already holds the transaction. -/
def findMerged (c : Internalizing) (vout : Nat) : StorageProg (Option Output) :=
  if c.isMerge then findOwnOutput c.userId c.subject.txid vout else pure none

/-- Take one output over. -/
def internalizeOutput (c : Internalizing) (transactionId : Nat) (spec : InternalizeOutput) :
    StorageProg Unit := do
  let vout := spec.index
  let txo := outputAt c.subject.tx vout
  match spec with
  | .walletPayment _ sender pre suf =>
    match ← findMerged c vout with
    | some o =>
      if o.basketId == some c.defaultBasket.basketId then
        pure ()
      else
        exec' (.updateOutput o.outputId
          { basketId := some c.defaultBasket.basketId, outputType := some "P2PKH"
            change := some true, providedBy := some .storage, purpose := some "change"
            senderIdentityKey := some sender })
    | none =>
      storeNewWalletPayment c transactionId vout txo sender (base64Encode pre) (base64Encode suf)
  | .basketInsertion _ name customInstructions tags =>
    let basket ← findOrInsertOutputBasket c.userId (if name.isEmpty then "default" else name)
    match ← findMerged c vout with
    | some o =>
      exec' (.updateOutput o.outputId
        { basketId := some basket.basketId, outputType := some "custom", change := some false
          providedBy := some .you, purpose := some "" })
    | none => storeNewBasketInsertion c transactionId vout txo basket.basketId customInstructions
    forM tags (addTag c.userId transactionId vout)

/-- The request that lets the monitor collect a proof for a subject that has none yet. -/
def requestProof (sdk : Sdk) (c : Internalizing) (transactionId : Nat) : StorageProg Unit := do
  if !c.hasProof && !c.isMerge then
    let now ← utcNow
    exec' (.insertProvenTxReq
      { createdAt := now, updatedAt := now, provenTxId := none, status := .unmined, attempts := 0
        notified := false, txid := c.subject.txid, batch := none
        history := some (.arr [.obj [("what", .str "internalizeAction"), ("userId", .num c.userId)]])
        notify := some (.obj [("transactionIds", .arr [.num transactionId])])
        rawTx := (sdk.txBytes c.subject.tx).toOption.getD [], inputBeef := some c.args.tx })
  else
    pure ()

/-- The database transaction of internalizeAction. -/
def internalizeBody (sdk : Sdk) (c : Internalizing) : StorageProg Unit := do
  forM c.beef.txs (storeAncestor sdk c.beef)
  let provenTxId ← subjectProvenTxId sdk c
  let transactionId ← subjectTransaction sdk c provenTxId
  forM c.args.labels (addLabel c.userId transactionId)
  forM c.args.outputs (internalizeOutput c transactionId)
  requestProof sdk c transactionId

/-- What a call establishes before it writes, default basket apart. -/
def prepareInternalize (sdk : Sdk) (tracker : ChainTracker) (userId : Nat)
    (args : StorageInternalizeActionArgs) : StorageProg Internalizing := do
  let beef ← Prog.ofExcept (match sdk.parseBeef args.tx with
    | .ok beef => .ok beef
    | .error e => .error (.invalidParameter "tx" s!"valid AtomicBEEF: {e}"))
  Prog.ofExcept (verifyAtomicBeef sdk tracker beef)
  let subject ← Prog.ofExcept (findSubject beef)
  Prog.ofExcept (checkOutputs subject.tx.outputs.length [] args.outputs)
  let rows ← find fun s => s.transactions.find fun t =>
    t.userId == userId && t.txid == some subject.txid
  let existing ← Prog.ofExcept (verifyOneOrNone rows)
  Prog.ofExcept (checkMergeable existing)
  let defaultBasket ← findOrInsertOutputBasket userId "default"
  let satoshis ← args.outputs.foldlM
    (addNetSatoshis userId subject existing.isSome defaultBasket.basketId) 0
  pure { userId, args, beef, subject, existing, defaultBasket, satoshis }

/-- `storage_internalize_action`. -/
def storageInternalizeAction (sdk : Sdk) (tracker : ChainTracker) (userId : Nat)
    (args : StorageInternalizeActionArgs) : StorageProg StorageInternalizeActionResult := do
  let c ← prepareInternalize sdk tracker userId args
  Prog.atomically (internalizeBody sdk c)
  pure { accepted := true, isMerge := c.isMerge, txid := c.subject.txid, satoshis := c.satoshis }

/-- `internalize_action`: the caller's user row is created on first use. -/
def internalizeAction (sdk : Sdk) (tracker : ChainTracker) (auth : String)
    (args : StorageInternalizeActionArgs) : StorageProg StorageInternalizeActionResult := do
  let (user, _) ← findOrInsertUser auth
  storageInternalizeAction sdk tracker user.userId args

end WalletToolbox.Storage
