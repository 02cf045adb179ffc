import WalletToolbox.Methods.ProcessAction
import WalletToolbox.Signer.BroadcastOutcome
import WalletToolbox.Signer.BuildSignable

/-! # createAction and signAction of the signer

The signer plans an action in storage, builds and signs the transaction, commits it with
processAction and applies the outcome of the broadcast.
A deferred action stops after the build: what signAction needs later is kept in memory, and rebuilt
from storage when it is not there.
The custody backend, the assembly of BEEFs and the SDK's codec are parameters; none of them writes to
storage. -/

namespace WalletToolbox.Signer

open WalletToolbox.Lib WalletToolbox.Storage

/-! ## Custody -/

/-- `SignActionSpend`. -/
structure SignActionSpend where
  unlockingScript : Bytes
  sequenceNumber : Option Nat := none

/-- `SigningBackend`: keys held by the process, or a provider. Signing an input takes the transaction
so far, the position and the derivation data, and gives the unlocking script. -/
inductive SigningBackend where
  | localKeys (changeLock : String → String → Except WalletError Bytes)
      (sign : SdkTransaction → Nat → PendingStorageInput → Except WalletError Bytes)
  | delegated (deriveChangeLockingScript : String → String → Except WalletError Bytes)
      (prepareSpendContexts : SdkTransaction → List PendingStorageInput → Except WalletError Unit)
      (signInput : SdkTransaction → Nat → PendingStorageInput → Except WalletError Bytes)

/-- The SDK's functions on transactions and the signer's on BEEFs. -/
structure Toolkit where
  sdk : Sdk
  builder : TxBuilder
  /-- `Transaction::to_binary`. -/
  toBinary : SdkTransaction → Except String Bytes
  /-- `Transaction::from_binary`. -/
  fromBinary : Bytes → Except String SdkTransaction
  /-- `Transaction::id`. -/
  id : SdkTransaction → Except String String
  /-- `merge_input_beef_signer`: the BEEF for all inputs, out of storage and the given one. -/
  mergeInputBeef : Store → StorageCreateActionResult → Except WalletError (Option Bytes)
  /-- `build_beef`. -/
  buildBeef : SdkTransaction → Option Bytes → Except WalletError Beef
  /-- `verify_unlock_scripts`. -/
  verifyUnlockScripts : String → Beef → Except WalletError Unit
  /-- `serialize_beef_atomic`. -/
  serializeBeefAtomic : Beef → String → Except WalletError Bytes
  /-- `serialize_beef_for_broadcast`. -/
  serializeBeefForBroadcast : Beef → Except WalletError Bytes

/-- An SDK call whose error is reported with a label. -/
def reported {α : Type} (label : String) (r : Except String α) : Except WalletError α :=
  match r with
  | .ok a => .ok a
  | .error e => .error (.internal (label ++ e))

/-- `build_signable_transaction` or its provider form. -/
def SigningBackend.build (kit : Toolkit) (dcr : StorageCreateActionResult)
    (args : ValidCreateActionArgs) :
    SigningBackend → Except WalletError (SdkTransaction × UInt64 × List PendingStorageInput)
  | .localKeys changeLock _ => buildSignableTransaction kit.builder kit.sdk changeLock dcr args
  | .delegated derive _ _ =>
    buildSignableTransactionWithProvider kit.builder kit.sdk derive dcr args

def SigningBackend.decode : SigningBackend → String → Except WalletError Bytes
  | .localKeys _ _, hex => .ok (hexToBytes hex)
  | .delegated _ _ _, hex => strictHexBytes 0 (utf8Chars hex)

def SigningBackend.sign :
    SigningBackend → SdkTransaction → Nat → PendingStorageInput → Except WalletError Bytes
  | .localKeys _ sign => sign
  | .delegated _ _ signInput => signInput

/-- The call that precedes signing; only a provider has one. -/
def SigningBackend.prepare (tx : SdkTransaction) (pdi : List PendingStorageInput) :
    SigningBackend → Except WalletError Unit
  | .localKeys _ _ => .ok ()
  | .delegated _ prepareSpendContexts _ => prepareSpendContexts tx pdi

/-! ## complete_signed_transaction -/

def outOfRange (parameter : String) (vin : Nat) : WalletError :=
  .invalidParameter parameter ("valid input index. vin " ++ toString vin ++ " out of range")

/-- Insert one unlocking script that the caller supplied. -/
def insertSpend (tx : SdkTransaction) (entry : Nat × SignActionSpend) :
    Except WalletError SdkTransaction :=
  match tx.inputs[entry.1]? with
  | none => .error (outOfRange "spends" entry.1)
  | some input =>
    let input := { input with
      unlockingScript := some entry.2.unlockingScript
      sequence := entry.2.sequenceNumber.getD input.sequence }
    .ok { tx with inputs := tx.inputs.set entry.1 input }

/-- The stand-in for the source transaction: empty outputs up to the one that is spent. -/
def sourceStub (index : Nat) (satoshis : UInt64) (script : Bytes) : Tx where
  version := 1
  inputs := []
  outputs := List.replicate index { satoshis := some 0, lockingScript := [] } ++
    [{ satoshis := some satoshis.toNat, lockingScript := script }]
  lockTime := 0

/-- Sign one input that the wallet controls. -/
def signPending (backend : SigningBackend) (tx : SdkTransaction) (pdi : PendingStorageInput) :
    Except WalletError SdkTransaction := do
  match tx.inputs[pdi.vin]? with
  | none => .error (outOfRange "pendingInputs" pdi.vin)
  | some input =>
    let script ← backend.decode pdi.lockingScript
    let input := { input with
      sourceTransaction := some (sourceStub input.sourceOutputIndex pdi.sourceSatoshis script) }
    let tx := { tx with inputs := tx.inputs.set pdi.vin input }
    let unlockingScript ← backend.sign tx pdi.vin pdi
    let input := { input with unlockingScript := some unlockingScript }
    pure { tx with inputs := tx.inputs.set pdi.vin input }

/-- `complete_signed_transaction` and its provider form, with the provider's preparation before it.
The spends come in the order in which the map yields them. -/
def completeSignedTransaction (kit : Toolkit) (backend : SigningBackend) (tx : SdkTransaction)
    (pdi : List PendingStorageInput) (spends : List (Nat × SignActionSpend)) :
    Except WalletError (SdkTransaction × Bytes) := do
  backend.prepare tx pdi
  let tx ← spends.foldlM insertSpend tx
  let tx ← pdi.foldlM (signPending backend) tx
  let bytes ← reported "Failed to serialize signed tx: " (kit.toBinary tx)
  pure (tx, bytes)

/-! ## createAction -/

/-- The decimal digits of a `u32`, or 0. -/
def parseVout (text : List Char) : Nat :=
  match text with
  | [] => 0
  | '+' :: [] => 0
  | '+' :: digits => value digits
  | digits => value digits
where
  value (digits : List Char) : Nat :=
    if digits.all Char.isDigit then
      let n := digits.foldl (fun n c => n * 10 + (c.toNat - '0'.toNat)) 0
      if n < 4294967296 then n else 0
    else 0

/-- `parse_outpoint_string`: what stands after the last dot is the vout. -/
def parseOutpointString (text : String) : StorageOutPoint :=
  let reversed := text.toList.reverse
  match reversed.dropWhile (· != '.') with
  | [] => { txid := text, vout := 0 }
  | _ :: txid =>
    { txid := String.ofList txid.reverse
      vout := parseVout (reversed.takeWhile (· != '.')).reverse }

/-- `to_storage_args`. -/
def toStorageArgs (args : ValidCreateActionArgs) : StorageCreateActionArgs where
  description := args.description
  inputs := args.inputs.map fun i =>
    { outpoint := i.outpoint
      unlockingScriptLength := (i.unlockingScript.map List.length).getD i.unlockingScriptLength }
  outputs := args.outputs.map fun o =>
    { lockingScript := (o.lockingScript.map bytesToHex).getD "", satoshis := o.satoshis
      outputDescription := o.outputDescription, basket := o.basket
      customInstructions := o.customInstructions, tags := o.tags.getD [] }
  lockTime := args.lockTime
  version := args.version
  labels := args.labels
  noSendChange := (args.noSendChange.getD []).map parseOutpointString
  randomizeOutputs := args.randomizeOutputs
  inputBeef := args.inputBeef
  isNoSend := args.isNoSend
  isDelayed := args.isDelayed

/-- `PendingSignAction`. -/
structure PendingSignAction where
  reference : String
  dcr : StorageCreateActionResult
  args : ValidCreateActionArgs
  tx : Bytes
  amount : UInt64
  pdi : List PendingStorageInput

structure SignableTransactionRef where
  reference : String
  tx : Bytes

/-- `SignerCreateActionResult`. -/
structure SignerCreateActionResult where
  txid : Option String
  tx : Option Bytes
  noSendChange : List String
  sendWithResults : List SendWithResult
  signableTransaction : Option SignableTransactionRef

/-- The outpoints of the change of a noSend action. -/
def noSendChange (args : ValidCreateActionArgs) (dcr : StorageCreateActionResult) (txid : String) :
    List String :=
  if args.isNoSend then
    (dcr.noSendChangeOutputVouts.getD []).map fun v => txid ++ "." ++ toString v
  else []

/-- A signed transaction that is ready for processAction. -/
structure Signed where
  txid : String
  rawTx : Bytes
  beef : Beef
  beefBytes : Bytes

/-- The steps from the unsigned transaction to the arguments of processAction. -/
def signAndVerify (kit : Toolkit) (backend : SigningBackend) (tx : SdkTransaction)
    (pdi : List PendingStorageInput) (spends : List (Nat × SignActionSpend))
    (inputBeef : Option Bytes) : Except WalletError Signed := do
  let (tx, rawTx) ← completeSignedTransaction kit backend tx pdi spends
  let txid ← reported "Failed to compute txid: " (kit.id tx)
  let beef ← kit.buildBeef tx inputBeef
  kit.verifyUnlockScripts txid beef
  let beefBytes ← kit.serializeBeefAtomic beef txid
  pure { txid, rawTx, beef, beefBytes }

/-- Broadcast a committed transaction unless it is held back, and apply the outcome. -/
def broadcastSigned (kit : Toolkit) (services : Services) (args : StorageProcessActionArgs)
    (signed : Signed) : StorageProg Unit :=
  if !args.isNoSend && !args.isDelayed then do
    let bytes ← Prog.ofExcept (kit.serializeBeefForBroadcast signed.beef)
    applyBroadcast services signed.txid (services.postBeef bytes [signed.txid])
  else
    pure ()

/-- Commit a signed transaction and broadcast it. `random` is the text of the random batch id. -/
def processAndBroadcast (kit : Toolkit) (services : Services) (auth random : String)
    (args : StorageProcessActionArgs) (signed : Signed) : StorageProg StorageProcessActionResult := do
  let result ← processAction auth args random
  broadcastSigned kit services args signed
  pure result

/-- The deferred branch: the txid of the unsigned transaction is stored on the row. -/
def deferAction (kit : Toolkit) (args : ValidCreateActionArgs) (dcr : StorageCreateActionResult)
    (tx : SdkTransaction) (amount : UInt64) (pdi : List PendingStorageInput) :
    StorageProg (SignerCreateActionResult × Option PendingSignAction) := do
  let bytes ← Prog.ofExcept (reported "Failed to serialize unsigned tx: " (kit.toBinary tx))
  let pending : PendingSignAction :=
    { reference := dcr.reference, dcr, args, tx := bytes, amount, pdi }
  let txid ← Prog.ofExcept (reported "Failed to compute txid: " (kit.id tx))
  let beef ← Prog.ofExcept (kit.buildBeef tx dcr.inputBeef)
  let signable ← Prog.ofExcept (kit.serializeBeefAtomic beef txid)
  match ← find fun s => s.transactions.first (·.reference == dcr.reference) with
  | some row => exec' (.updateTransaction row.transactionId { txid := some txid })
  | none => pure ()
  pure
    ({ txid := none, tx := none, noSendChange := noSendChange args dcr txid, sendWithResults := []
       signableTransaction := some { reference := dcr.reference, tx := signable } }, some pending)

/-- The arguments of processAction after createAction. -/
def createProcessArgs (args : ValidCreateActionArgs) (reference : String) (signed : Signed) :
    StorageProcessActionArgs where
  isNewTx := args.isNewTx
  isSendWith := args.isSendWith
  isNoSend := args.isNoSend
  isDelayed := args.isDelayed
  reference := some reference
  txid := some signed.txid
  rawTx := some signed.rawTx
  sendWith := if args.isSendWith then args.sendWith.getD [] else []

/-- The immediate branch. -/
def completeAction (kit : Toolkit) (services : Services) (backend : SigningBackend)
    (auth random : String) (args : ValidCreateActionArgs) (dcr : StorageCreateActionResult)
    (tx : SdkTransaction) (pdi : List PendingStorageInput) :
    StorageProg (SignerCreateActionResult × Option PendingSignAction) := do
  let signed ← Prog.ofExcept (signAndVerify kit backend tx pdi [] dcr.inputBeef)
  let result ← processAndBroadcast kit services auth random
    (createProcessArgs args dcr.reference signed) signed
  pure
    ({ txid := some signed.txid
       tx := if args.returnTxidOnly.getD false then none else some signed.beefBytes
       noSendChange := noSendChange args dcr signed.txid
       sendWithResults := result.sendWithResults.getD [], signableTransaction := none }, none)

/-- `signer_create_action` once storage has planned the action. -/
def finishCreateAction (kit : Toolkit) (services : Services) (backend : SigningBackend)
    (auth random : String) (args : ValidCreateActionArgs) (dcr : StorageCreateActionResult) :
    StorageProg (SignerCreateActionResult × Option PendingSignAction) := do
  let merged ← find fun s => kit.mergeInputBeef s dcr
  let inputBeef ← Prog.ofExcept merged
  let dcr := { dcr with inputBeef }
  let (tx, amount, pdi) ← Prog.ofExcept (backend.build kit dcr args)
  if args.isSignAction then
    deferAction kit args dcr tx amount pdi
  else
    completeAction kit services backend auth random args dcr tx pdi

/-- `signer_create_action`. -/
def signerCreateAction (kit : Toolkit) (services : Services) (backend : SigningBackend)
    (entropy : Entropy) (auth random : String) (args : ValidCreateActionArgs) :
    StorageProg (SignerCreateActionResult × Option PendingSignAction) := do
  let dcr ← createAction kit.sdk entropy auth (toStorageArgs args)
  finishCreateAction kit services backend auth random args dcr

/-! ## signAction -/

/-- `ValidSignActionArgs`; an absent flag is inherited from createAction. -/
structure ValidSignActionArgs where
  reference : String
  spends : List (Nat × SignActionSpend)
  sendWith : Option (List String) := none
  returnTxidOnly : Option Bool := none
  isNewTx : Bool := true
  isNoSend : Option Bool := none
  isDelayed : Option Bool := none
  isSendWith : Option Bool := none

/-- `SignerSignActionResult`. -/
structure SignerSignActionResult where
  txid : Option String
  tx : Option Bytes
  sendWithResults : List SendWithResult

/-- The arguments of processAction after signAction: the caller's options, or else those of
createAction. -/
def signProcessArgs (args : ValidSignActionArgs) (pending : PendingSignAction) (signed : Signed) :
    StorageProcessActionArgs where
  isNewTx := args.isNewTx
  isSendWith := args.isSendWith.getD pending.args.isSendWith
  isNoSend := args.isNoSend.getD pending.args.isNoSend
  isDelayed := args.isDelayed.getD pending.args.isDelayed
  reference := some pending.reference
  txid := some signed.txid
  rawTx := some signed.rawTx
  sendWith :=
    if args.isSendWith.getD pending.args.isSendWith then
      if (args.sendWith.getD []).isEmpty then pending.args.sendWith.getD []
      else args.sendWith.getD []
    else []

/-- The signed transaction of a signAction, out of the pending record. -/
def signPendingAction (kit : Toolkit) (backend : SigningBackend) (args : ValidSignActionArgs)
    (pending : PendingSignAction) : Except WalletError Signed := do
  let tx ← reported "Failed to reconstruct unsigned tx: " (kit.fromBinary pending.tx)
  signAndVerify kit backend tx pending.pdi args.spends pending.dcr.inputBeef

/-- `signer_sign_action`. -/
def signerSignAction (kit : Toolkit) (services : Services) (backend : SigningBackend)
    (auth random : String) (args : ValidSignActionArgs) (pending : PendingSignAction) :
    StorageProg SignerSignActionResult := do
  let signed ← Prog.ofExcept (signPendingAction kit backend args pending)
  let result ← processAndBroadcast kit services auth random (signProcessArgs args pending signed) signed
  pure
    { txid := some signed.txid
      tx := if args.returnTxidOnly.getD false || pending.args.returnTxidOnly.getD false then none
        else some signed.beefBytes
      sendWithResults := result.sendWithResults.getD [] }

/-! ## The signer with its pending actions -/

/-- The statuses in which a transaction can be signed again. -/
def signable (status : TransactionStatus) : Bool :=
  status == .unsigned || status == .nosend

/-- The derivation data of one input, out of the output that the transaction spends. -/
def recoverInput (spent : List Output) (input : TransactionInput) (vin : Nat) :
    Option PendingStorageInput :=
  match spent.find? fun o =>
    o.txid == some (input.sourceTxid.getD "") && o.vout == input.sourceOutputIndex with
  | none => none
  | some o =>
    let derivationPrefix := o.derivationPrefix.getD ""
    let derivationSuffix := o.derivationSuffix.getD ""
    if derivationPrefix ≠ "" ∨ derivationSuffix ≠ "" then
      some
        { vin, derivationPrefix, derivationSuffix, unlockerPubKey := o.senderIdentityKey
          sourceSatoshis := asU64 o.satoshis
          lockingScript := (o.lockingScript.map bytesToHex).getD "" }
    else none

/-- `recover_pending_sign_action`. -/
def recoverPendingSignAction (kit : Toolkit) (auth reference : String) :
    StorageProg PendingSignAction := do
  match ← findUserByIdentityKey auth with
  | none => .fail (.unauthorized "User not found")
  | some user =>
    match ← find fun s => s.transactions.first fun t =>
      t.userId == user.userId && t.reference == reference with
    | none => .fail (.invalidParameter "reference"
        "a reference for an existing unsigned transaction")
    | some row =>
      if !signable row.status then
        .fail (.invalidOperation
          s!"Transaction '{reference}' has status '{row.status.toString}' and cannot be signed")
      else
        match row.rawTx with
        | none => .fail (.internal
            s!"Transaction '{reference}' has no raw_tx stored for signing recovery")
        | some rawTx =>
          let tx ← Prog.ofExcept (reported
            s!"Failed to parse stored unsigned transaction for reference '{reference}': "
            (kit.fromBinary rawTx))
          let spent ← find fun s => s.outputs.find (·.spentBy == some row.transactionId)
          let dcr : StorageCreateActionResult :=
            { reference, version := (row.version.getD 1).toNat, lockTime := (row.lockTime.getD 0).toNat
              inputs := [], outputs := [], derivationPrefix := "", inputBeef := row.inputBeef
              noSendChangeOutputVouts := none }
          pure
            { reference, dcr, tx := rawTx, amount := 0
              args :=
                { description := row.description, inputs := [], outputs := [], lockTime := dcr.lockTime
                  version := dcr.version, isSignAction := true, isNoSend := row.status == .nosend }
              pdi := tx.inputs.zipIdx.filterMap fun (input, vin) => recoverInput spent input vin }

/-- The signer: its storage and what it keeps in memory. -/
structure DefaultWalletSigner where
  store : Store
  pendingSignActions : List (String × PendingSignAction) := []

/-- `HashMap::insert`. -/
def DefaultWalletSigner.remember (w : DefaultWalletSigner) (p : PendingSignAction) :
    DefaultWalletSigner :=
  { w with pendingSignActions :=
      (p.reference, p) :: w.pendingSignActions.filter fun e => e.1 != p.reference }

/-- `HashMap::remove`. -/
def DefaultWalletSigner.forget (w : DefaultWalletSigner) (reference : String) :
    DefaultWalletSigner :=
  { w with pendingSignActions := w.pendingSignActions.filter fun e => e.1 != reference }

/-- The record of a reference that is in memory. -/
def DefaultWalletSigner.pending (w : DefaultWalletSigner) (reference : String) :
    Option PendingSignAction :=
  (w.pendingSignActions.find? fun e => e.1 == reference).map Prod.snd

/-- `create_action` of the signer. -/
def DefaultWalletSigner.createAction (w : DefaultWalletSigner) (kit : Toolkit) (services : Services)
    (backend : SigningBackend) (entropy : Entropy) (auth random : String)
    (args : ValidCreateActionArgs) : Except WalletError SignerCreateActionResult × DefaultWalletSigner :=
  match (signerCreateAction kit services backend entropy auth random args).run Stmt.exec w.store with
  | (.ok (result, some pending), store) => (.ok result, { w with store }.remember pending)
  | (.ok (result, none), store) => (.ok result, { w with store })
  | (.error e, store) => (.error e, { w with store })

/-- The pending record for a signAction: the one in memory, or one rebuilt from storage. -/
def DefaultWalletSigner.recall (w : DefaultWalletSigner) (kit : Toolkit) (auth reference : String) :
    StorageProg PendingSignAction :=
  match w.pending reference with
  | some pending => pure pending
  | none => recoverPendingSignAction kit auth reference

/-- `sign_action` of the signer: the record leaves the memory before the attempt. -/
def DefaultWalletSigner.signAction (w : DefaultWalletSigner) (kit : Toolkit) (services : Services)
    (backend : SigningBackend) (auth random : String) (args : ValidSignActionArgs) :
    Except WalletError SignerSignActionResult × DefaultWalletSigner :=
  let attempt := do
    let pending ← w.recall kit auth args.reference
    signerSignAction kit services backend auth random args pending
  let (result, store) := attempt.run Stmt.exec w.store
  (result, { w.forget args.reference with store })

end WalletToolbox.Signer
