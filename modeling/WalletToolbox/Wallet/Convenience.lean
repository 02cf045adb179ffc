import WalletToolbox.Methods.InternalizeAction
import WalletToolbox.Methods.SpecOps
import WalletToolbox.Signer.Actions
import WalletToolbox.Wallet.BeefHelpers

/-! # The balance, and sweeping it into another wallet

The wallet's listing asks its storage and builds the BEEF of the outputs when whole transactions are
wanted; the balance is such a listing, read off its count field.
A sweep asks createAction for one output of the largest possible amount and has the other wallet
internalize it.
The storage manager takes its locks and hands each call to the active store. -/

namespace WalletToolbox

open WalletToolbox.Lib WalletToolbox.Storage WalletToolbox.Signer

/-- What the listing uses beyond the storage. -/
structure ListingSdk extends Sdk, BumpSdk where
  /-- `validate_list_outputs_args`, with the text of its error. -/
  validateListOutputsArgs : ListOutputsArgs → Except String Unit
  /-- The text of `to_sdk_error`. -/
  sdkErrorText : Storage.WalletError → String

structure Wallet where
  identityKey : String
  /-- The BEEF of the wallet's `BeefParty`. -/
  beef : Beef
  returnTxidOnly : Bool

/-- The txids of the outpoints, each once, in order. -/
def uniqueTxids (outputs : List SdkOutput) : List String :=
  (outputs.filterMap fun output =>
    if output.outpoint.toList.contains '.' then
      some (String.ofList (output.outpoint.toList.takeWhile (· != '.')))
    else none).foldl (fun seen txid => if seen.contains txid then seen else seen ++ [txid]) []

/-- The BEEF of whole transactions, nothing when none is known. -/
def mergedBeefOf (sdk : ListingSdk) (d : Tables) (txids : List String) : Except String (Option Bytes) :=
  do
    let beef ← txids.foldlM (fun beef txid => do
      match ← getValidBeefForTxid sdk.toSdk sdk.toBumpSdk .no [] d txid with
      | some bytes => (sdk.mergeBeef beef bytes).mapError fun e =>
          s!"Failed to merge BEEF for {txid}: {e}"
      | none => .ok beef) Beef.empty
    if beef.txs.isEmpty then .ok none
    else do
      let bytes ← (sdk.beefBytes (sdk.sortTxs beef)).mapError fun e =>
        s!"Failed to serialize merged BEEF: {e}"
      .ok (some bytes)

/-- Attach the BEEF of the listed transactions when it is asked for. -/
def attachBeef (sdk : ListingSdk) (d : Tables) (args : ListOutputsArgs) (result : ListOutputsResult) :
    Except String ListOutputsResult :=
  if args.includes = some .entireTransactions ∧ result.beef.isNone then
    let txids := uniqueTxids result.outputs
    if txids.isEmpty then .ok result
    else do
      match ← mergedBeefOf sdk d txids with
      | some bytes => .ok { result with beef := some bytes }
      | none => .ok result
  else .ok result

/-- Complete the txid-only entries of the result's BEEF from the wallet's. -/
def verifyBeef (sdk : ListingSdk) (w : Wallet) (result : ListOutputsResult) :
    Except String ListOutputsResult :=
  match result.beef with
  | none => .ok result
  | some bytes => do
    let verified ← verifyReturnedTxidOnlyBeef sdk.toSdk sdk.toBumpSdk bytes w.beef w.returnTxidOnly
    .ok { result with beef := some verified }

namespace Wallet

/-- `list_outputs` of the wallet, without an originator; its errors are told by their texts. -/
def listOutputs (sdk : ListingSdk) (w : Wallet) (args : ListOutputsArgs) :
    StorageProg ListOutputsResult := do
  Prog.ofExcept ((sdk.validateListOutputsArgs args).mapError .internal)
  match ← (listOutputsAuth ⟨w.identityKey, none⟩ args).attempt with
  | .error e => .fail (.internal (sdk.sdkErrorText e))
  | .ok result => do
    let attached ← find fun s => attachBeef sdk s.toTables args result
    Prog.ofExcept ((attached >>= verifyBeef sdk w).mapError .internal)

/-- The arguments of the listing that a balance is read off. -/
def balanceArgs : Option ListOutputsArgs → ListOutputsArgs
  | some a => if a.basket ≠ specOpWalletBalance then { a with tags := a.tags ++ [specOpWalletBalance] }
    else a
  | none =>
    { basket := specOpWalletBalance, tags := [], tagQueryMode := none, includes := none
      includeCustomInstructions := false, includeTags := false, includeLabels := false
      limit := none, offset := none }

/-- `balance`. -/
def balance (sdk : ListingSdk) (w : Wallet) (args : Option ListOutputsArgs) : StorageProg UInt64 := do
  let r ← w.listOutputs sdk (balanceArgs args)
  pure (UInt64.ofNat r.totalOutputs)

structure UtxoInfo where
  satoshis : UInt64
  outpoint : String
deriving DecidableEq

structure WalletBalance where
  total : UInt64
  utxos : List UtxoInfo
deriving DecidableEq

/-- `balance_and_utxos`. -/
def balanceAndUtxos (sdk : ListingSdk) (w : Wallet) (args : Option ListOutputsArgs) :
    StorageProg WalletBalance := do
  let r ← w.listOutputs sdk (balanceArgs args)
  pure { total := UInt64.ofNat r.totalOutputs
         utxos := r.outputs.map fun o => ⟨o.satoshis, o.outpoint⟩ }

end Wallet

/-! ## Actions of the wallet

They are called without an originator, and their errors are told by their texts. -/

/-- What the wallet uses beyond the tools of its signer. -/
structure ActionKit extends Toolkit where
  bumps : BumpSdk
  /-- The BEEF of a `BeefParty` after `merge_beef`, which may fail. -/
  mergedParty : Beef → Beef → Beef
  /-- `Beef::to_binary_atomic`. -/
  toBinaryAtomic : Beef → String → Except String Bytes
  /-- `Beef::into_transaction`. -/
  intoTransaction : Beef → Except String Tx
  /-- `validate_create_action_args`. -/
  validateCreateActionArgs : ValidCreateActionArgs → Except String Unit
  /-- `validate_internalize_action_args`. -/
  validateInternalizeActionArgs : StorageInternalizeActionArgs → Except String Unit
  /-- The text of `to_sdk_error`. -/
  sdkErrorText : Storage.WalletError → String

/-- `SPEC_OP_THROW_REVIEW_ACTIONS`. -/
def specOpThrowReviewActions : String :=
  "a496e747fc3ad5fabdd4ae8f91184e71f87539bd3d962aa2548942faaaf0047a"

/-- `throw_if_any_unsuccessful_create_actions`. -/
def throwIfAnyUnsuccessfulCreateActions (results : List SendWithResult) : Except String Unit :=
  let failures := (results.filter (·.status == .failed)).map fun r => s!"txid={r.txid} status=failed"
  if failures.isEmpty then .ok ()
  else .error ("WERR_REVIEW_ACTIONS: createAction had unsuccessful results: " ++
    ", ".intercalate failures)

/-- A wallet that acts: its services and custody, and what the call at hand draws at random. -/
structure ActingWallet extends Wallet where
  services : Services
  backend : SigningBackend
  entropy : Entropy
  random : String

namespace ActingWallet

/-- The wallet's own BEEF once it has taken in an AtomicBEEF. -/
def party (kit : ActionKit) (w : ActingWallet) (tx : Bytes) : Beef :=
  match kit.sdk.parseBeef tx with
  | .ok beef => kit.mergedParty w.beef beef
  | .error _ => w.beef

/-- The AtomicBEEF as it leaves the wallet. -/
def returned (kit : ActionKit) (w : ActingWallet) : Option Bytes → Except String (Option Bytes)
  | none => .ok none
  | some tx => do
    let verified ← verifyReturnedTxidOnlyAtomicBeef kit.sdk kit.bumps kit.toBinaryAtomic tx
      (w.party kit tx) w.returnTxidOnly none
    .ok (some verified)

/-- `create_action` of an action that is signed at once. -/
def createAction (kit : ActionKit) (w : ActingWallet) (args : ValidCreateActionArgs) :
    StorageProg SignerCreateActionResult := do
  Prog.ofExcept ((kit.validateCreateActionArgs args).mapError .internal)
  match ← (signerCreateAction kit.toToolkit w.services w.backend w.entropy w.identityKey w.random
    args).attempt with
  | .error e => .fail (.internal (kit.sdkErrorText e))
  | .ok (result, _) => do
    let tx ← Prog.ofExcept ((w.returned kit result.tx).mapError .internal)
    Prog.ofExcept ((throwIfAnyUnsuccessfulCreateActions result.sendWithResults).mapError .internal)
    pure { result with tx }

end ActingWallet

/-- A wallet that receives: its view of the chain, and the script that its custody expects a BRC-29
payment of a prefix, a suffix and a sender to be locked with. -/
structure ReceivingWallet extends Wallet where
  tracker : ChainTracker
  expectedScript : String → String → String → Except WalletError Bytes

namespace ReceivingWallet

/-- No output is named twice. -/
def checkUnique (seen : List Nat) : List InternalizeOutput → Except WalletError Unit
  | [] => .ok ()
  | spec :: rest =>
    if seen.contains spec.index then .error (.invalidParameter "outputs" "unique outputIndex values")
    else checkUnique (spec.index :: seen) rest

/-- A payment is locked with the script that the wallet can unlock. -/
def checkPayment (w : ReceivingWallet) (tx : Tx) (spec : InternalizeOutput) :
    Except WalletError Unit :=
  match spec with
  | .basketInsertion _ _ _ _ => .ok ()
  | .walletPayment i sender derivationPrefix derivationSuffix =>
    match tx.outputs[i]? with
    | none => .error (.invalidOperation (s!"Wallet payment output index {i} is out of range " ++
        s!"(transaction has {tx.outputs.length} outputs)."))
    | some output => do
      let expected ← w.expectedScript (base64Encode derivationPrefix) (base64Encode derivationSuffix)
        sender
      if output.lockingScript ≠ expected then
        .error (.invalidOperation (s!"Wallet payment output {i} has locking script that doesn't " ++
          "match BRC-29 derivation. The wallet cannot spend this output."))
      else .ok ()

/-- `signer_internalize_action`. -/
def signerInternalizeAction (kit : ActionKit) (w : ReceivingWallet)
    (args : StorageInternalizeActionArgs) : StorageProg StorageInternalizeActionResult := do
  Prog.ofExcept (checkUnique [] args.outputs)
  let beef ← Prog.ofExcept (reported "Failed to parse AtomicBEEF: " (kit.sdk.parseBeef args.tx))
  let tx ← Prog.ofExcept (reported "Failed to extract subject transaction from BEEF: "
    (kit.intoTransaction beef))
  Prog.ofExcept (args.outputs.forM (w.checkPayment tx))
  Storage.internalizeAction kit.sdk w.tracker w.identityKey args

/-- `internalize_action`. -/
def internalizeAction (kit : ActionKit) (w : ReceivingWallet) (args : StorageInternalizeActionArgs) :
    StorageProg Unit := do
  Prog.ofExcept ((kit.validateInternalizeActionArgs args).mapError .internal)
  if args.labels.contains specOpThrowReviewActions then
    .fail (.internal "WERR_REVIEW_ACTIONS: internalizeAction specOp throw review actions")
  else
    match ← (w.signerInternalizeAction kit args).attempt with
    | .error e => .fail (.internal (kit.sdkErrorText e))
    | .ok result =>
      if result.accepted then pure ()
      else .fail (.internal "WERR_REVIEW_ACTIONS: internalizeAction was not accepted")

end ReceivingWallet

/-! ## Sweeping -/

/-- A sweeping wallet, with the two random texts as the bytes that they encode: the strict decoding of
`payment_derivation_bytes` gives these back. -/
structure SweepingWallet extends ActingWallet where
  derivationPrefix : Bytes
  derivationSuffix : Bytes
  /-- `ScriptTemplateBRC29::lock` with the root key, for an identity key. -/
  lock : String → String → String → Except WalletError Bytes

namespace SweepingWallet

/-- The request of a sweep. -/
def sweepArgs (lockScript : Bytes) (derivationPrefix derivationSuffix : String) :
    ValidCreateActionArgs :=
  { description := "sweep", inputs := []
    outputs := [{ lockingScript := some lockScript, satoshis := maxPossibleSatoshis
                  outputDescription := "sweep"
                  customInstructions := some ("\x7b\"derivationPrefix\":\"" ++ derivationPrefix ++
                    "\",\"derivationSuffix\":\"" ++ derivationSuffix ++ "\",\"type\":\"BRC29\"\x7d")
                  tags := some ["relinquish"] }]
    labels := ["sweep"], randomizeOutputs := some false }

/-- The request of this wallet, for an identity key. -/
def request (w : SweepingWallet) (toKey : String) : Except WalletError ValidCreateActionArgs := do
  let derivationPrefix := base64Encode w.derivationPrefix
  let derivationSuffix := base64Encode w.derivationSuffix
  let lockScript ← w.lock derivationPrefix derivationSuffix toKey
  pure (sweepArgs lockScript derivationPrefix derivationSuffix)

/-- The first half of `sweep_to`: the AtomicBEEF of the payment. -/
def send (kit : ActionKit) (w : SweepingWallet) (toKey : String) : StorageProg Bytes :=
  match w.backend with
  | .delegated _ _ _ => .fail (.invalidOperation (
      "sweep_to is unavailable when a signing provider is injected: it locks the " ++
      "outgoing BRC-29 output with the local root key, which the provider does not own"))
  | .localKeys _ _ => do
    let args ← Prog.ofExcept (w.request toKey)
    let car ← w.createAction kit args
    match car.tx with
    | none => .fail (.internal "sweep createAction returned no tx")
    | some tx => pure tx

/-- What the receiver is asked to internalize. -/
def payment (w : SweepingWallet) (tx : Bytes) : StorageInternalizeActionArgs :=
  { tx, description := "sweep", labels := ["sweep"]
    outputs := [.walletPayment 0 w.identityKey w.derivationPrefix w.derivationSuffix] }

/-- `sweep_to`, on the sender's store and the receiver's, which `theirs` gives once the sender has
acted: it is the same one when the wallets share it. -/
def sweepTo (kit : ActionKit) (w : SweepingWallet) (toWallet : ReceivingWallet) (theirs : Store → Store)
    (mine : Store) : Except WalletError Unit × Store × Store :=
  match (w.send kit toWallet.identityKey).run Stmt.exec mine with
  | (.error e, mine') => (.error e, mine', theirs mine')
  | (.ok tx, mine') =>
    let (result, theirs') := (toWallet.internalizeAction kit (w.payment tx)).run Stmt.exec (theirs mine')
    (result, mine', theirs')

end SweepingWallet

end WalletToolbox
