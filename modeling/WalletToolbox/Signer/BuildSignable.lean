import Mathlib.Data.UInt
import WalletToolbox.Methods.CreateAction

/-! # build_signable_transaction

Builds the unsigned transaction from what storage answered to createAction.
Storage may be remote and is not trusted: its answer is checked against the caller's request before
anything is signed.
Keys, scripts and the SDK's transaction builder are parameters. -/

namespace WalletToolbox.Signer

open WalletToolbox.Storage

/-! ## Arguments -/

/-- `CreateActionOutput`, as far as the signer reads it. -/
structure CreateActionOutput where
  lockingScript : Option Bytes
  satoshis : UInt64
  outputDescription : String := ""
  basket : Option String := none
  customInstructions : Option String := none
  tags : Option (List String) := none

/-- `ValidCreateActionInput`. -/
structure ValidCreateActionInput where
  outpoint : StorageOutPoint
  inputDescription : String := ""
  unlockingScript : Option Bytes
  unlockingScriptLength : Nat
  sequenceNumber : Nat

/-- `ValidCreateActionArgs`. -/
structure ValidCreateActionArgs where
  description : String
  inputs : List ValidCreateActionInput
  outputs : List CreateActionOutput
  lockTime : Nat := 0
  version : Nat := 1
  labels : List String := []
  randomizeOutputs : Option Bool := none
  returnTxidOnly : Option Bool := none
  noSendChange : Option (List String) := none
  sendWith : Option (List String) := none
  inputBeef : Option Bytes := none
  isNewTx : Bool := true
  isSignAction : Bool := false
  isNoSend : Bool := false
  isDelayed : Bool := false
  isSendWith : Bool := false

/-- `PendingStorageInput`. -/
structure PendingStorageInput where
  vin : Nat
  derivationPrefix : String
  derivationSuffix : String
  unlockerPubKey : Option String
  sourceSatoshis : UInt64
  lockingScript : String
deriving DecidableEq

/-! ## The SDK's transaction -/

/-- `TransactionInput`. -/
structure TransactionInput where
  sourceTransaction : Option Tx
  sourceTxid : Option String
  sourceOutputIndex : Nat
  unlockingScript : Option Bytes
  sequence : Nat
deriving DecidableEq

/-- `TransactionOutput`; a locking script is its bytes. -/
structure TransactionOutput where
  satoshis : Option UInt64
  lockingScript : Bytes
  change : Bool
deriving DecidableEq

/-- `Transaction` of the SDK. -/
structure SdkTransaction where
  version : Nat := 1
  inputs : List TransactionInput := []
  outputs : List TransactionOutput := []
  lockTime : Nat := 0
deriving DecidableEq

/-- The builder functions of the SDK. -/
structure TxBuilder where
  /-- `Transaction::add_input`. -/
  addInput : SdkTransaction → TransactionInput → Except String SdkTransaction
  /-- `Transaction::add_output`. -/
  addOutput : SdkTransaction → TransactionOutput → Except String SdkTransaction

/-! ## Checks of the storage response -/

/-- `MAX_STORAGE_COMMISSION_SATOSHIS`. -/
def maxStorageCommissionSatoshis : UInt64 := 500000

/-- The text of a `StorageProvidedBy`. -/
def providedByText : StorageProvidedBy → String
  | .storage => "storage"
  | .you => "you"
  | .youAndStorage => "you-and-storage"

/-- `to_lowercase`, for a comparison with hex text: no character outside ASCII has a hex digit as
its lowercase form. -/
def toLowercase (text : String) : String :=
  String.ofList (text.toList.map Char.toLower)

def isChange (out : StorageCreateTransactionSdkOutput) : Bool :=
  out.providedBy == .storage && out.purpose == some "change"

def isCommission (out : StorageCreateTransactionSdkOutput) : Bool :=
  out.providedBy == .storage &&
    (out.purpose == some "storage-commission" || out.purpose == some "service-charge")

/-- One requested output of `verify_requested_outputs_unchanged`. -/
def verifyRequestedOutput (storageOutputs : List StorageCreateTransactionSdkOutput)
    (requested : CreateActionOutput) (i : Nat) : Except WalletError Unit :=
  match storageOutputs[i]? with
  | none => .error (.invalidParameter "storage outputs"
      ("present for every requested output. Storage did not return an output for requested output index " ++
        toString i ++ "."))
  | some provided =>
    if provided.purpose = some "change" ∨ provided.providedBy = .storage then
      .error (.invalidParameter "output.providedBy"
        ("consistent with the request. Storage reclassified requested output " ++ toString i ++
          " as providedBy='" ++ providedByText provided.providedBy ++ "' purpose='" ++
          provided.purpose.getD "" ++ "'."))
    else
      let requestedScript := (requested.lockingScript.map bytesToHex).getD ""
      if requestedScript = "" ∨ requestedScript ≠ toLowercase provided.lockingScript then
        .error (.invalidParameter "output.lockingScript"
          ("equal to the caller-requested locking script. Storage returned a different locking script for output index " ++
            toString i ++ "; the recipient may have been substituted."))
      else if provided.satoshis ≠ requested.satoshis then
        .error (.invalidParameter "output.satoshis"
          ("equal to the caller-requested satoshis. Storage returned " ++ toString provided.satoshis ++
            " for output index " ++ toString i ++ ", caller requested " ++
            toString requested.satoshis ++ "."))
      else
        .ok ()

/-- `verify_requested_outputs_unchanged`. -/
def verifyRequestedOutputsUnchanged (storageOutputs : List StorageCreateTransactionSdkOutput)
    (outputs : List CreateActionOutput) : Except WalletError Unit :=
  outputs.zipIdx.forM fun (requested, i) => verifyRequestedOutput storageOutputs requested i

/-- One further output; the answer is the number of commissions so far. -/
def verifyUnrequestedOutput (commissionCount : Nat) (out : StorageCreateTransactionSdkOutput)
    (i : Nat) : Except WalletError Nat :=
  if isChange out then .ok commissionCount
  else if isCommission out then
    if 1 < commissionCount + 1 then
      .error (.invalidParameter "storage outputs"
        ("at most one commission output. Storage returned an extra commission output at index " ++
          toString i ++ "."))
    else if maxStorageCommissionSatoshis < out.satoshis then
      .error (.invalidParameter "output.satoshis"
        ("a commission no greater than " ++ toString maxStorageCommissionSatoshis ++
          ". Storage returned a commission of " ++ toString out.satoshis ++ " at index " ++
          toString i ++ "; funds could be redirected to an attacker."))
    else
      .ok (commissionCount + 1)
  else
    .error (.invalidParameter "storage outputs"
      ("only change or commission beyond the requested outputs. Storage returned an unrecognized output (providedBy='" ++
        providedByText out.providedBy ++ "' purpose='" ++ out.purpose.getD "" ++ "') at index " ++
        toString i ++ "; funds could be redirected to an attacker."))

/-- `verify_unrequested_outputs_are_change_or_commission`. -/
def verifyUnrequestedOutputsAreChangeOrCommission
    (storageOutputs : List StorageCreateTransactionSdkOutput) (outputs : List CreateActionOutput) :
    Except WalletError Unit := do
  let _ ← (storageOutputs.zipIdx.drop outputs.length).foldlM
    (fun count (out, i) => verifyUnrequestedOutput count out i) 0
  pure ()

/-! ## Assembly -/

/-- How one of the two build functions turns an output into its script: the derivation of change
locks from a prefix and a suffix, and the decoder of hex text. -/
structure ScriptSource where
  changeLock : String → String → Except WalletError Bytes
  decode : String → Except WalletError Bytes

/-- The index of each vout, in vout order. The source casts the position to `u32`, which keeps it:
there are fewer than 2^32 outputs. -/
def voutToIndex (storageOutputs : List StorageCreateTransactionSdkOutput) :
    Except WalletError (List Nat) :=
  (List.range storageOutputs.length).mapM fun vout =>
    match storageOutputs.findIdx? (·.vout == vout) with
    | some i => .ok i
    | none => .error (.invalidParameter "output.vout" ("sequential. " ++ toString vout ++ " is missing"))

/-- The transaction output for one storage output. -/
def makeOutput (source : ScriptSource) (derivationPrefix : String)
    (out : StorageCreateTransactionSdkOutput) : Except WalletError TransactionOutput := do
  let lockingScript ←
    if isChange out then
      match out.derivationSuffix with
      | none => .error (.internal "change output missing derivation_suffix")
      | some derivationSuffix => source.changeLock derivationPrefix derivationSuffix
    else
      source.decode out.lockingScript
  pure { satoshis := some out.satoshis, lockingScript, change := isChange out }

/-- `Transaction::add_output` with its error reported. -/
def addOutput (builder : TxBuilder) (label : String) (tx : SdkTransaction) (o : TransactionOutput) :
    Except WalletError SdkTransaction :=
  match builder.addOutput tx o with
  | .ok tx => .ok tx
  | .error e => .error (.internal ("Failed to add " ++ label ++ " output: " ++ e))

/-- `Transaction::add_input` with its error reported. -/
def addInput (builder : TxBuilder) (label : String) (tx : SdkTransaction) (input : TransactionInput) :
    Except WalletError SdkTransaction :=
  match builder.addInput tx input with
  | .ok tx => .ok tx
  | .error e => .error (.internal ("Failed to add " ++ label ++ " input: " ++ e))

/-- The outputs in vout order; a transaction without any gets one that carries nothing. -/
def addOutputs (builder : TxBuilder) (source : ScriptSource) (dcr : StorageCreateActionResult)
    (tx : SdkTransaction) : Except WalletError SdkTransaction := do
  let indices ← voutToIndex dcr.outputs
  let tx ← indices.foldlM (fun tx i => do
    match dcr.outputs[i]? with
    | some out =>
      let o ← makeOutput source dcr.derivationPrefix out
      addOutput builder "transaction" tx o
    | none => pure tx) tx
  if dcr.outputs.isEmpty then
    addOutput builder "fallback transaction" tx
      { satoshis := some 0, lockingScript := [0x00, 0x6a, 0x01, 0x2a], change := false }
  else
    pure tx

/-- What the inputs add up to while they are added. -/
structure InputsBuilt where
  tx : SdkTransaction
  pending : List PendingStorageInput := []
  totalChangeInputs : UInt64 := 0

/-- One input: the caller's own, or one of storage's to be signed later. -/
def addStorageInput (builder : TxBuilder) (sdk : Sdk) (b : InputsBuilt)
    (input : Option ValidCreateActionInput × StorageCreateTransactionSdkInput) :
    Except WalletError InputsBuilt :=
  match input with
  | (some ai, _) => do
    let tx ← addInput builder "caller" b.tx
      { sourceTransaction := none, sourceTxid := some ai.outpoint.txid
        sourceOutputIndex := ai.outpoint.vout, unlockingScript := some (ai.unlockingScript.getD [])
        sequence := ai.sequenceNumber }
    pure { b with tx }
  | (none, si) =>
    if si.outputType ≠ "P2PKH" then
      .error (.invalidParameter "type"
        ("vin " ++ toString si.vin ++ ", \"" ++ si.outputType ++
          "\" is not a supported unlocking script type."))
    else do
      let pending : PendingStorageInput :=
        { vin := b.tx.inputs.length, derivationPrefix := si.derivationPrefix.getD ""
          derivationSuffix := si.derivationSuffix.getD "", unlockerPubKey := si.senderIdentityKey
          sourceSatoshis := si.sourceSatoshis, lockingScript := si.sourceLockingScript }
      let tx ← addInput builder "storage" b.tx
        { sourceTransaction := si.sourceTransaction.bind fun raw => (sdk.parseTx raw).toOption
          sourceTxid := some si.sourceTxid, sourceOutputIndex := si.sourceVout
          unlockingScript := some [], sequence := 4294967295 }
      pure { tx, pending := b.pending ++ [pending]
             totalChangeInputs := b.totalChangeInputs + si.sourceSatoshis }

/-- The inputs with the caller's argument that each belongs to, in vin order. -/
def mergedInputs (inputs : List StorageCreateTransactionSdkInput)
    (args : List ValidCreateActionInput) :
    List (Option ValidCreateActionInput × StorageCreateTransactionSdkInput) :=
  (inputs.map fun si => (args[si.vin]?, si)).mergeSort fun a b => a.2.vin ≤ b.2.vin

/-- The body that the two build functions share. -/
def buildSignable (builder : TxBuilder) (sdk : Sdk) (source : ScriptSource)
    (dcr : StorageCreateActionResult) (args : ValidCreateActionArgs) :
    Except WalletError (SdkTransaction × UInt64 × List PendingStorageInput) := do
  verifyRequestedOutputsUnchanged dcr.outputs args.outputs
  verifyUnrequestedOutputsAreChangeOrCommission dcr.outputs args.outputs
  let tx ← addOutputs builder source dcr { version := dcr.version, lockTime := dcr.lockTime }
  let built ← (mergedInputs dcr.inputs args.inputs).foldlM (addStorageInput builder sdk) { tx }
  let totalChangeOutputs := ((dcr.outputs.filter (·.purpose == some "change")).map (·.satoshis)).sum
  let amount :=
    if totalChangeOutputs ≤ built.totalChangeInputs then built.totalChangeInputs - totalChangeOutputs
    else 0
  pure (built.tx, amount, built.pending)

/-- `build_signable_transaction`: change locks from the local keys; hex pairs that do not parse are
skipped. -/
def buildSignableTransaction (builder : TxBuilder) (sdk : Sdk)
    (changeLock : String → String → Except WalletError Bytes) (dcr : StorageCreateActionResult)
    (args : ValidCreateActionArgs) :
    Except WalletError (SdkTransaction × UInt64 × List PendingStorageInput) :=
  buildSignable builder sdk { changeLock, decode := fun hex => .ok (hexToBytes hex) } dcr args

/-- The provider's `hex_to_bytes`, which refuses text that is no hex; `i` is the position. -/
def strictHexBytes (i : Nat) : List Char → Except WalletError Bytes
  | [] => .ok []
  | [_] => .error (.internal "odd-length hex string")
  | a :: b :: rest =>
    match hexPair a b with
    | none => .error (.internal ("invalid hex at position " ++ toString i))
    | some byte => (strictHexBytes (i + 2) rest).map (byte :: ·)

/-- `build_signable_transaction_with_provider`: change locks from the provider. -/
def buildSignableTransactionWithProvider (builder : TxBuilder) (sdk : Sdk)
    (deriveChangeLockingScript : String → String → Except WalletError Bytes)
    (dcr : StorageCreateActionResult) (args : ValidCreateActionArgs) :
    Except WalletError (SdkTransaction × UInt64 × List PendingStorageInput) :=
  buildSignable builder sdk
    { changeLock := deriveChangeLockingScript, decode := fun hex => strictHexBytes 0 (utf8Chars hex) }
    dcr args

end WalletToolbox.Signer
